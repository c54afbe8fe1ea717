import SettingsTree.Json.Draft
import SettingsTree.Json.Printer
import SettingsTree.Json.Reader
import SettingsTree.Schema.Compile

/-! # Persisted schemas

A compiled schema is kept as a JSON document. What lives at a position is written as a tag and a
shape that depends on the tag. Reading checks the form of the document and nothing else: any tree
that can be written can be read. What is read may nest up to 127 arrays and objects; a field that
nothing asks for is passed over at any depth.

A shape that comes before its tag is read ahead, before it is known what it is. Then nothing in it
is passed over, and its words may be written in two ways more.
-/

namespace SettingsTree

namespace Descriptor

/-- The document of a position with what lives there. -/
def frame (label : Label) (tag : String) (shape : Json) : Json := .obj [
  ("remote_name", .str label.remote),
  ("local_name", .str label.localName),
  ("ordinal", .int label.ordinal.toInt),
  ("kind", .obj [("kind", .str tag), ("shape", shape)])]

mutual
def toJson : Descriptor → Json
  | container label properties children commands =>
    frame label "fixed_container" (.obj [
      ("properties", .arr (toJsonAll properties)),
      ("children", .arr (toJsonAll children)),
      ("commands", .arr (toJsonAll commands))])
  | collection label template => frame label "named_collection" template.toJson
  | leaf label primitive => frame label "primitive_leaf" (.str primitive.tag)
  | command label arguments essential pathArgument query =>
    frame label "command" (.obj [
      ("arguments", .arr (toJsonAll arguments)),
      ("essential", .arr (essential.map .str)),
      ("path_argument", match pathArgument with
        | some name => .str name
        | none => .null),
      ("query", .bool query)])
def toJsonAll : List Descriptor → List Json
  | [] => []
  | d :: rest => d.toJson :: toJsonAll rest
end

def tags : List String := ["fixed_container", "named_collection", "primitive_leaf", "command"]

/-- A word: a text, or an object whose one member has it as its name and nothing as its value. When
it is read ahead, an empty object is nothing too. -/
def word? (ahead : Bool) (room : Nat) : Draft → Option String
  | .str text => text
  | .obj [(name, value)] =>
    match room, value with
    | 0, _ => none
    | _, .null => name
    | _, .obj [] => if ahead then name else none
    | _, _ => none
  | _ => none

/-- The tag in a list of a tag and a shape: a text, or a number when it is read ahead. -/
def listedTag? (ahead : Bool) : Draft → Option String
  | .str text => text
  | .num (some (.int number)) =>
    if ahead && 0 ≤ number then tags[number.toNat]? else none
  | _ => none

def shapeComesFirst (members : List (Option String × Draft)) : Bool :=
  (members.find? fun member => member.1 = some "kind" || member.1 = some "shape").any fun member =>
    member.1 = some "shape"

/-- What lives at a position: a tag and a shape, and whether the shape is read ahead. -/
structure Framed where
  ahead : Bool
  tag : String
  shape : Draft

def framed? (ahead : Bool) (room : Nat) : Draft → Option Framed
  | .obj members => do
    let some tag ← Draft.field? "kind" members | none
    let some shape ← Draft.field? "shape" members | none
    let first := shapeComesFirst members
    if first && !shape.isValue room then none
    else return ⟨ahead || first, ← word? ahead room tag, shape⟩
  | .arr [tag, shape] => (listedTag? ahead tag).map (⟨ahead, ·, shape⟩)
  | _ => none

def fields : List String := ["remote_name", "local_name", "ordinal", "kind"]

mutual
/-- Read a descriptor where so many arrays and objects may still be opened. -/
def read? (ahead : Bool) : (room : Nat) → Draft → Option Descriptor
  | 0, _ => none
  | room + 1, document => do
    let [some remote, some localName, some ordinal, some kind] ← document.record? fields | none
    readKind? ahead room ⟨← remote.string?, ← localName.string?, ← ordinal.int64?⟩ kind
def readKind? (ahead : Bool) : (room : Nat) → Label → Draft → Option Descriptor
  | 0, _, _ => none
  | room + 1, label, document => do
    let found ← framed? ahead room document
    match found.tag with
    | "fixed_container" => readContainer? found.ahead room label found.shape
    | "named_collection" => return .collection label (← read? found.ahead room found.shape)
    | "primitive_leaf" =>
      return .leaf label (← Primitive.ofTag? (← word? found.ahead room found.shape))
    | "command" => readCommand? found.ahead room label found.shape
    | _ => none
def readContainer? (ahead : Bool) : (room : Nat) → Label → Draft → Option Descriptor
  | 0, _, _ => none
  | room + 1, label, shape => do
    let [some properties, some children, some commands] ←
      shape.record? ["properties", "children", "commands"] | none
    return .container label (← readAll? ahead room properties) (← readAll? ahead room children)
      (← readAll? ahead room commands)
def readCommand? (ahead : Bool) : (room : Nat) → Label → Draft → Option Descriptor
  | 0, _, _ => none
  | room + 1, label, shape => do
    let [some arguments, some essential, pathArgument, some query] ←
      shape.record? ["arguments", "essential", "path_argument", "query"] | none
    if room = 0 then none
    else
      return .command label (← readAll? ahead room arguments) (← essential.strings?)
        (← Draft.optionalString? pathArgument) (← query.bool?)
def readAll? (ahead : Bool) : (room : Nat) → Draft → Option (List Descriptor)
  | room + 1, .arr items => items.mapM fun item => read? ahead room item
  | _, _ => none
end

end Descriptor

namespace Compiled

def maxDepth : Nat := 127

def toJson (schema : Compiled) : Json := .obj [
  ("fingerprint", .str schema.digest),
  ("options", .str schema.options),
  ("root_type", .str schema.rootType),
  ("root", schema.root.toJson)]

def toText (schema : Compiled) : String := schema.toJson.pretty

/-- Read a compiled schema from its document. The digest of the options may be missing. -/
def read? : (room : Nat) → Draft → Option Compiled
  | 0, _ => none
  | room + 1, document => do
    let [some digest, options, some rootType, some root] ←
      document.record? ["fingerprint", "options", "root_type", "root"] | none
    let options ← match options with
      | none => some ""
      | some options => options.string?
    return ⟨← digest.string?, options, ← rootType.string?, ← Descriptor.read? false room root⟩

def ofText (text : String) : Except SchemaError Compiled :=
  match (Draft.ofText? text).bind (read? maxDepth) with
  | some schema => .ok schema
  | none => .error .unreadable

end Compiled

end SettingsTree
