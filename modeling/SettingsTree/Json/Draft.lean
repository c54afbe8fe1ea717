import SettingsTree.Json.Value

/-! # Documents whose contents are not judged yet

The grammar of JSON admits numbers that no double can hold and texts with half a surrogate pair. A
draft is a document that follows the grammar; what in it denotes nothing is kept as such. A reader
can pass over a part of a draft that it does not need, whatever that part contains. A draft in which
everything denotes something is a JSON value.

A record is an object with a known set of fields, each at most once; other fields are passed over.
A list of the values of all fields, in order, is a record too.
-/

namespace SettingsTree

/-- A document that follows the grammar. -/
inductive Draft where
  | null
  | bool (value : Bool)
  /-- A number, if it is in range. -/
  | num (value : Option Number)
  /-- A text, if its surrogates are paired. -/
  | str (value : Option String)
  | arr (items : List Draft)
  | obj (members : List (Option String × Draft))

namespace Draft

mutual
def value? : Draft → Option Json
  | null => some .null
  | bool value => some (.bool value)
  | num value => value.map .num
  | str value => value.map .str
  | arr items => (itemValues? items).map .arr
  | obj members => (memberValues? members).map .obj
def itemValues? : List Draft → Option (List Json)
  | [] => some []
  | item :: rest => do return (← item.value?) :: (← itemValues? rest)
def memberValues? : List (Option String × Draft) → Option (List (String × Json))
  | [] => some []
  | member :: rest => do return (← member.1, ← member.2.value?) :: (← memberValues? rest)
end

/-- Whether a draft is a JSON value that nests at most `room` arrays and objects. -/
def isValue (room : Nat) (draft : Draft) : Bool := draft.value?.any fun value => value.depth ≤ room

/-! ### Records -/

/-- The value of a field that occurs at most once. Every name must be a text. -/
def field? (name : String) : List (Option String × Draft) → Option (Option Draft)
  | [] => some none
  | (none, _) :: _ => none
  | (some key, value) :: rest =>
    match field? name rest with
    | none => none
    | some found =>
      if key = name then if found.isSome then none else some (some value) else some found

/-- The values of the fields of a record, in the order of `names`. -/
def record? (names : List String) : Draft → Option (List (Option Draft))
  | .obj members => names.mapM (field? · members)
  | .arr items => if items.length = names.length then some (items.map some) else none
  | _ => none

def string? : Draft → Option String
  | .str text => text
  | _ => none

/-- A draft as a text that may be missing. -/
def optionalString? : Option Draft → Option (Option String)
  | none | some .null => some none
  | some draft => draft.string?.map some

def bool? : Draft → Option Bool
  | .bool flag => some flag
  | _ => none

def int64? : Draft → Option Int64
  | .num number => number.bind Number.int64?
  | _ => none

def strings? : Draft → Option (List String)
  | .arr items => items.mapM string?
  | _ => none

end Draft

end SettingsTree
