import SettingsTree.Text.Quoted

/-! # Kinds, primitive types and faults of schemas -/

namespace SettingsTree

/-- The type of a primitive setting or of a command argument. -/
inductive Primitive where
  | integer
  | real
  | string
  | filename
  | logical
  | realList
  | integerList
  | realVector
  | stringList
  | logicalList
  | stringFloatPairList
  | dictList
  | dictListDict
  deriving DecidableEq, Repr

namespace Primitive

def all : List Primitive := [
  integer, real, string, filename, logical, realList, integerList, realVector, stringList,
  logicalList, stringFloatPairList, dictList, dictListDict]

def tag : Primitive → String
  | integer => "Integer"
  | real => "Real"
  | string => "String"
  | filename => "Filename"
  | logical => "Logical"
  | realList => "Real List"
  | integerList => "Integer List"
  | realVector => "Real Vector"
  | stringList => "String List"
  | logicalList => "Logical List"
  | stringFloatPairList => "String Float Pair List"
  | dictList => "StrOrIntDictList"
  | dictListDict => "StrOrIntDictListDict"

def ofTag? (tag : String) : Option Primitive := all.find? fun p => p.tag = tag

/-- The type that a remote schema means by a tag. Vectors have an older tag of their own. -/
def ofRemoteTag? (tag : String) : Option Primitive :=
  if tag = "Real Triplet" then some realVector else ofTag? tag

def isList : Primitive → Bool
  | realList | integerList | realVector | stringList | logicalList | stringFloatPairList
  | dictList => true
  | _ => false

def isDict : Primitive → Bool
  | dictListDict => true
  | _ => false

/-- The name of a type in descriptions of objects: its tag in one word. -/
def word (p : Primitive) : String := String.ofList (p.tag.toList.filter (· ≠ ' '))

end Primitive

/-- The kinds of positions in a settings tree. -/
inductive Kind where
  | container
  | collection
  | property
  | command
  deriving DecidableEq, Repr

def Kind.message : Kind → String
  | container => "container"
  | collection => "named collection"
  | property => "primitive setting"
  | command => "command"

/-- Why a schema cannot be compiled, or a compiled one cannot be read. -/
inductive SchemaError where
  | missingRoot (rootType : String)
  /-- Something that should be an entry is no object but a value of another kind. -/
  | notAnObject (path found : String)
  /-- A type tag means nothing. -/
  | unknownPrimitive (path tag : String)
  | untyped (path : String)
  /-- An entry is of a kind that its place does not admit. -/
  | misplaced (path : String) (wanted found : Kind)
  /-- A field of an entry has a value of the wrong kind. -/
  | invalidField (path key : String)
  /-- An essential argument is not among the arguments. -/
  | unknownEssential (path name : String)
  /-- A text is no compiled schema. -/
  | unreadable
  /-- A file cannot be read. -/
  | unavailable
  deriving DecidableEq, Repr

def SchemaError.message : SchemaError → String
  | missingRoot rootType => s!"schema has no root type {Text.quote rootType}"
  | notAnObject path found => s!"{path}: expected an object, found {found}"
  | unknownPrimitive path tag => s!"{path}: unknown primitive type {Text.quote tag}"
  | untyped path => s!"{path}: entry has no primitive type and no container or command marker"
  | misplaced path wanted found => s!"{path}: expected {wanted.message}, found {found.message}"
  | invalidField path key => s!"{path}: invalid {Text.quote key} field"
  | unknownEssential path name => s!"{path}: essential argument {Text.quote name} is not declared"
  | unreadable => "malformed compiled schema"
  | unavailable => "compiled schema is not available"

end SettingsTree
