import SettingsTree.Path.Step
import SettingsTree.Text.Quoted

/-! # Well-formed paths and member names

A well-formed path is empty or has up to 64 steps, each after a slash, none with an empty type or an
empty member name. The name of a new member is neither empty nor does it contain a slash.
-/

namespace SettingsTree

open Text

/-! ### Faults of addressing -/

/-- What is wrong with a text that should be a path or a member name. -/
inductive Flaw where
  | missingSlash
  | tooDeep
  | emptyType
  | emptyMemberName
  | emptyComponent
  | emptyPath
  | emptyObjectName
  | slashInObjectName
  deriving DecidableEq, Repr

def Flaw.message : Flaw → String
  | missingSlash => "missing leading '/'"
  | tooDeep => "path too deep"
  | emptyType => "empty type name"
  | emptyMemberName => "empty instance name"
  | emptyComponent => "empty component"
  | emptyPath => "empty path"
  | emptyObjectName => "empty object name"
  | slashInObjectName => "object name contains '/'"

/-- What a caller expected to find under a local name. -/
inductive Wanted where
  | container
  | collection
  | property
  | command
  | propertyOrChild
  deriving DecidableEq, Repr

def Wanted.message : Wanted → String
  | container => "container"
  | collection => "named collection"
  | property => "property"
  | command => "command"
  | propertyOrChild => "property or child"

/-- Why an address leads nowhere. -/
inductive PathError where
  /-- The text is no path, or no member name. -/
  | malformed (path : String) (flaw : Flaw)
  /-- A component has no place in the schema. -/
  | noSuchComponent (path component : String)
  /-- An object has no member of this local name. -/
  | unknownMember (path name : String)
  /-- The member of this local name is of another kind. -/
  | kindMismatch (path name : String) (wanted : Wanted)
  | noSuchObject (path name : String)
  deriving DecidableEq, Repr

def PathError.message : PathError → String
  | malformed path flaw => s!"malformed path {Text.quote path}: {flaw.message}"
  | noSuchComponent path component =>
    s!"path {Text.quote path}: component {Text.quote component} matches no schema node"
  | unknownMember path name => s!"{path}: no property, child or command named {Text.quote name}"
  | kindMismatch path name wanted => s!"{path}: {Text.quote name} is not a {wanted.message}"
  | noSuchObject path name => s!"{path}: no object named {Text.quote name}"

/-! ### Checks -/

namespace Path

def maxDepth : Nat := 64

def componentFlaw? (component : List Char) : Option Flaw :=
  match cutFirst ':' component with
  | some ([], _) => some .emptyType
  | some (_, []) => some .emptyMemberName
  | some _ => none
  | none => if component = [] then some .emptyComponent else none

/-- The first flaw among written steps, of which `room` are admitted. -/
def componentsFlaw? : (room : Nat) → List (List Char) → Option Flaw
  | _, [] => none
  | 0, _ :: _ => some .tooDeep
  | room + 1, component :: rest =>
    match componentFlaw? component with
    | some flaw => some flaw
    | none => componentsFlaw? room rest

def flaw? (text : String) : Option Flaw :=
  match text.toList with
  | [] => none
  | '/' :: rest => componentsFlaw? maxDepth (splitAll '/' rest)
  | _ => some .missingSlash

def check (text : String) : Except PathError Unit :=
  match flaw? text with
  | some flaw => .error (.malformed text flaw)
  | none => .ok ()

/-- Accept a text that can name a new member of a collection. -/
def checkObjectName (name : String) : Except PathError Unit :=
  if name = "" then .error (.malformed name .emptyObjectName)
  else if name.toList.contains '/' then .error (.malformed name .slashInObjectName)
  else .ok ()

end Path

end SettingsTree
