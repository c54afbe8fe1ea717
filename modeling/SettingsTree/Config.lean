import SettingsTree.Schema.Compile
import SettingsTree.Toml.Reader
import SettingsTree.Toml.Writer

/-! # Configuration of a client

Every setting has a default, so that the empty document is a configuration. Settings that are not
known are ignored.
-/

namespace SettingsTree

structure Config where
  /-- The category under which the remote reports its schema. -/
  schemaCategory : String := "DatamodelMetadata"
  /-- A file with a compiled schema to use if it still fits. -/
  prebuiltSchema : Option String := none
  /-- The remote name of the argument that receives the path of the object a command acts on. -/
  pathArgument : String := "ObjectPath"
  extraReserved : List String := []
  deriving DecidableEq, Repr

inductive ConfigError where
  /-- The file cannot be read. -/
  | unavailable
  /-- The text is no configuration. -/
  | unreadable
  deriving DecidableEq, Repr

namespace Config

def options (config : Config) : Options := ⟨config.pathArgument, ⟨config.extraReserved⟩⟩

def text? : Toml.Value → Option String
  | .text text => some text
  | _ => none

def texts? : Toml.Value → Option (List String)
  | .list items => items.mapM text?
  | _ => none

/-- The setting under `key`, read by `read`, or its default. -/
def setting? {α : Type} (document : Keyed Toml.Value) (key : String) (read : Toml.Value → Option α)
    (default : α) : Option α :=
  match Keyed.get? key document with
  | some value => read value
  | none => some default

def ofDocument? (document : Keyed Toml.Value) : Option Config := do
  let default : Config := {}
  return {
    schemaCategory := ← setting? document "schema_category" text? default.schemaCategory
    prebuiltSchema := ← setting? document "prebuilt_schema" (fun v => (text? v).map some)
      default.prebuiltSchema
    pathArgument := ← setting? document "path_argument" text? default.pathArgument
    extraReserved := ← setting? document "extra_reserved_names" texts? default.extraReserved }

def ofToml (text : String) : Except ConfigError Config :=
  match (Toml.read? text).bind ofDocument? with
  | some config => .ok config
  | none => .error .unreadable

def toToml (config : Config) : String :=
  let prebuilt := match config.prebuiltSchema with
    | some file => Toml.writeLine "prebuilt_schema" (Toml.writeText file)
    | none => ""
  Toml.writeLine "schema_category" (Toml.writeText config.schemaCategory) ++ prebuilt ++
    Toml.writeLine "path_argument" (Toml.writeText config.pathArgument) ++
    Toml.writeLine "extra_reserved_names" (Toml.writeTexts config.extraReserved)

end Config

end SettingsTree
