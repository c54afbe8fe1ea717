import SettingsTree.Projection.Keys

/-! # Nesting of members without a schema

A bare remote state does not tell a member of a collection from a value whose key happens to contain
a colon. Given the types that are collections at each depth, the members of a collection are moved
into an object under its type. Depths count the levels of the nested form: what stands under an
ordinary key is one level deeper than the key, the state of a member two.
-/

namespace SettingsTree.Projection

/-- The types that are collections, at each depth. -/
abbrev CollectionTypes := List (Nat × List String)

def CollectionTypes.has (types : CollectionTypes) (depth : Nat) (type : String) : Bool :=
  List.any types fun level => level.1 = depth && level.2.contains type

/-- The type and the name in a key, if the type is a collection at this depth. -/
def nestedKey? (types : CollectionTypes) (depth : Nat) (key : String) : Option (String × String) :=
  (splitMemberKey key).bind fun parts => if types.has depth parts.1 then some parts else none

/-- Write a member into the object under its type. A value there that is no object gives way. -/
def insertNested (type name : String) (value : Json) (out : Keyed Json) : Keyed Json :=
  Keyed.insert type (.obj (Keyed.insert name value (membersUnder type out))) out

mutual
def nestAt (types : CollectionTypes) (depth : Nat) : Json → Json
  | .obj state => .obj (nestEntries types depth state [])
  | value => value
def nestEntries (types : CollectionTypes) (depth : Nat) :
    List (String × Json) → Keyed Json → Keyed Json
  | [], out => out
  | entry :: rest, out =>
    nestEntries types depth rest <|
      match nestedKey? types depth entry.1 with
      | some (type, name) => insertNested type name (nestAt types (depth + 2) entry.2) out
      | none => Keyed.insert entry.1 (nestAt types (depth + 1) entry.2) out
end

def nest (types : CollectionTypes) (state : Json) : Json := nestAt types 0 state

end SettingsTree.Projection
