import SettingsTree.Text.Basic

/-! # Steps and paths

An object of the settings tree is addressed by the steps that lead to it from the root. A step
names a type, and for a member of a collection also the member. A path is written with a slash
before every step and a colon between type and member name. Dropping the member names gives the
type path, which addresses a position of the schema.
-/

namespace SettingsTree

open Text

/-- One level of a path: a type, and the member's name if the type is that of a collection. -/
structure Step where
  type : String
  name : Option String := none
  deriving DecidableEq, Repr

namespace Step

def member (type name : String) : Step := ⟨type, some name⟩

def chars (step : Step) : List Char :=
  match step.name with
  | none => step.type.toList
  | some name => step.type.toList ++ ':' :: name.toList

def render (step : Step) : String := String.ofList step.chars

/-- Read a step. Only the first colon separates, so a member name may contain others. -/
def ofChars (component : List Char) : Step :=
  match cutFirst ':' component with
  | none => ⟨String.ofList component, none⟩
  | some (type, name) => ⟨String.ofList type, some (String.ofList name)⟩

end Step

/-- Steps from the root downward. -/
abbrev Path := List Step

namespace Path

def chars (path : Path) : List Char := path.flatMap fun step => '/' :: step.chars

def render (path : Path) : String := String.ofList path.chars

/-- The written form of a path without its member names. -/
def renderTypes (path : Path) : String := render (path.map fun step => ⟨step.type, none⟩)

def dropSlash : List Char → List Char
  | '/' :: rest => rest
  | text => text

/-- Read a path. The slash at the start may be missing; the empty text is the empty path. -/
def parse (text : String) : Path :=
  if text = "" then [] else (splitAll '/' (dropSlash text.toList)).map Step.ofChars

def typePath (text : String) : String := renderTypes (parse text)

def types (text : String) : List String := (parse text).map Step.type

/-- A written path with one more step. -/
def join (parent : String) (step : Step) : String := parent ++ render [step]

/-- The written path without its last step; none for fewer than two steps. -/
def parent? (text : String) : Option String :=
  let path := parse text
  if path.length < 2 then none else some (render path.dropLast)

def last? (text : String) : Option Step := (parse text).getLast?

/-- Whether `child` continues `parent` by at least one step. -/
def isBelow : (parent child : Path) → Bool
  | [], child => !child.isEmpty
  | _ :: _, [] => false
  | a :: parent, b :: child => a == b && isBelow parent child

end Path

end SettingsTree
