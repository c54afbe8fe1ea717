import SettingsTree.Json.Printer
import SettingsTree.Name.Local
import SettingsTree.Path.Check
import SettingsTree.Schema.Descriptor
import SettingsTree.Schema.Entry

/-! # Compiling raw schemas

Every entry of a raw schema becomes one descriptor. The properties, children and commands of a
container share one set of local names. The first fault in the order of the ordinals is reported,
properties before children before commands.
-/

namespace SettingsTree

/-- How a schema is compiled: the remote name of the argument that receives the path of the object
a command is invoked on, and how local names are formed. -/
structure Options where
  pathArgument : String := "ObjectPath"
  naming : Name.Naming := {}

namespace Options

/-- What the digest of the options covers. -/
def summary (options : Options) : Json := .obj [
  ("path_argument", .str options.pathArgument),
  ("reserved", .arr (options.naming.extraSorted.map .str))]

/-- The digest of the options, whatever the order in which reserved words were given. -/
def digest (options : Options) : String := options.summary.digest

end Options

/-- A tree of descriptors, with the digests of the raw schema and of the options it was compiled
with. -/
structure Compiled where
  digest : String
  options : String
  rootType : String
  root : Descriptor
  deriving DecidableEq

namespace Compiled

/-- Follow the steps of a written path downward. -/
def follow (path : String) : Descriptor → Path → Except PathError Descriptor
  | d, [] => .ok d
  | d, step :: rest =>
    match d.descend? step.type with
    | some next => follow path next rest
    | none => .error (.noSuchComponent path step.type)

def find (schema : Compiled) (path : String) : Except PathError Descriptor :=
  match Path.parse path with
  | [] => .error (.malformed path .emptyPath)
  | first :: rest =>
    if first.type = schema.root.remote then follow path schema.root rest
    else .error (.noSuchComponent path first.type)

end Compiled

namespace Compile

open Entry Name

def leaf (path : String) (localName : String) (item : Item) : Except SchemaError Descriptor := do
  let inner := pathOf path item.name
  match ← mark inner item.entry with
  | .leaf tag =>
    match Primitive.ofRemoteTag? tag with
    | some primitive => return .leaf ⟨item.name, localName, item.ordinal⟩ primitive
    | none => throw (.unknownPrimitive inner tag)
  | .unmarked => throw (.untyped inner)
  | other => throw (.misplaced inner .property other.kind)

/-- The first essential name that is neither declared nor supplied by the runtime. -/
def undeclared? (supplied : Option String) (declared essential : List String) : Option String :=
  essential.find? fun name => some name ≠ supplied && !declared.contains name

/-- A command. The path argument is none of its arguments, and it is never essential. -/
def command (options : Options) (path : String) (localName : String) (item : Item) :
    Except SchemaError Descriptor := do
  let inner := pathOf path item.name
  match ← mark inner item.entry with
  | .command =>
    let found ← sortedItems .arguments inner item.entry
    let supplied :=
      if found.any (·.name = options.pathArgument) then some options.pathArgument else none
    let declared := found.filter (·.name ≠ options.pathArgument)
    let locals := distinguishAll (declared.map fun a => options.naming.localName a.name)
    let arguments ← (locals.zip declared).mapM fun a => leaf inner a.1 a.2
    let essential ← essentials inner item.entry
    match undeclared? supplied (declared.map Item.name) essential with
    | some name => throw (.unknownEssential inner name)
    | none =>
      let query ← isQuery inner item.entry
      return .command ⟨item.name, localName, item.ordinal⟩ arguments
        (essential.filter fun name => some name ≠ supplied) supplied query
  | other => throw (.misplaced inner .command other.kind)

/-- A container or a collection. The members of a collection are described once, by its template,
which has the names of the collection. -/
def container (options : Options) (path : String) (label : Label) (entry : Entry) :
    Except SchemaError Descriptor := do
  let found ← mark path entry
  match found with
  | .unmarked | .collection =>
    let parameters ← sortedItems .parameters path entry
    let children ← smallerItems .children path entry
    let commands ← sortedItems .commands path entry
    let names := parameters.map Item.name ++ children.map (·.1.name) ++ commands.map Item.name
    let locals := distinguishAll (names.map options.naming.localName)
    let behind := locals.drop parameters.length
    let properties ← (locals.zip parameters).mapM fun p => leaf path p.1 p.2
    let inside ← (behind.zip children).mapM fun c =>
      container options (pathOf path c.2.1.name) ⟨c.2.1.name, c.1, c.2.1.ordinal⟩ c.2.1.entry
    let actions ← ((behind.drop children.length).zip commands).mapM fun c =>
      command options path c.1 c.2
    let shape := Descriptor.container label properties inside actions
    return if found = .collection then .collection label shape else shape
  | other => throw (.misplaced path .container other.kind)
termination_by sizeOf entry
decreasing_by exact c.2.2

end Compile

open Entry in
/-- Compile the entry of the root type. The root is no collection. -/
def compile (raw : Json) (rootType : String) (options : Options) : Except SchemaError Compiled := do
  let top ← ofJson "" raw
  match Keyed.get? rootType top with
  | none => throw (.missingRoot rootType)
  | some value =>
    let path := Path.render [⟨rootType, none⟩]
    let entry ← ofJson path value
    let label := ⟨rootType, options.naming.localName rootType, ← ordinal path entry⟩
    let root ← Compile.container options path label entry
    match root with
    | .collection .. => throw (.misplaced path .container .collection)
    | root => return ⟨raw.digest, options.digest, rootType, root⟩

end SettingsTree
