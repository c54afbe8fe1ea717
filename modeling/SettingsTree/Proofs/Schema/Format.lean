import Mathlib.Data.List.Forall2
import SettingsTree.Schema.Basic
import SettingsTree.Schema.Compile
import SettingsTree.Schema.Entry

/-! # The format of raw schemas

What an entry must look like to be a property, a command or a container, said of its fields alone:
without an order in which they are checked and without the path that a report of a fault would name.
A schema is valid when its root entry is a container of a fixed shape and everything that is listed
below it, at any depth, is of the kind that its section asks for.
-/

namespace SettingsTree

namespace Entry

/-- A field that is missing or null says nothing. -/
def Lacks (field : String) (entry : Entry) : Prop :=
  Keyed.get? field entry = none ∨ Keyed.get? field entry = some .null

/-- Whatever the query flag is, having it makes an entry a command. -/
def IsCommand (entry : Entry) : Prop := Keyed.has "isQuery" entry = true

/-- The collection flag is missing, null or not set. -/
def Unflagged (entry : Entry) : Prop :=
  Lacks "isNamed" entry ∨ Keyed.get? "isNamed" entry = some (.bool false)

/-- A named collection. Its type, if it has one, is not looked at. -/
def IsCollection (entry : Entry) : Prop :=
  ¬entry.IsCommand ∧ Keyed.get? "isNamed" entry = some (.bool true)

/-- A primitive setting with a type tag, which need not mean anything. -/
def IsLeaf (entry : Entry) (tag : String) : Prop :=
  ¬entry.IsCommand ∧ entry.Unflagged ∧ Keyed.get? "type" entry = some (.str tag)

def IsFixed (entry : Entry) : Prop :=
  ¬entry.IsCommand ∧ entry.Unflagged ∧ Keyed.get? "type" entry = none

theorem Unflagged.not_collection {entry : Entry} (h : entry.Unflagged) : ¬entry.IsCollection := by
  rintro ⟨-, hflag⟩
  simp [Unflagged, Lacks, hflag] at h

/-- The ordinal that an entry declares, or the last one if it declares none. -/
def HasOrdinal (entry : Entry) (ordinal : Int64) : Prop :=
  (Lacks "ordinal" entry ∧ ordinal = lastOrdinal) ∨
    Keyed.get? "ordinal" entry = some (.int ordinal.toInt)

/-- Whether a command is a query. The flag must be there; null stands for false. -/
def HasQueryFlag (entry : Entry) (query : Bool) : Prop :=
  Keyed.get? "isQuery" entry = some (.bool query) ∨
    (Keyed.get? "isQuery" entry = some .null ∧ query = false)

def HasEssentials (entry : Entry) (names : List String) : Prop :=
  (Lacks "essentialArgs" entry ∧ names = []) ∨
    Keyed.get? "essentialArgs" entry = some (.arr (names.map .str))

/-- A section lists an entry under a name. -/
def Holds (part : Section) (entry : Entry) (name : String) (inner : Entry) : Prop :=
  ∃ members, Keyed.get? part.key entry = some (.obj members) ∧ (name, .obj inner) ∈ members

/-- A section is missing, null, or an object of entries with ordinals, each as it should be. -/
def ValidSection (part : Section) (entry : Entry) (valid : String → Entry → Prop) : Prop :=
  Lacks part.key entry ∨
    ∃ members, Keyed.get? part.key entry = some (.obj members) ∧
      ∀ member ∈ members, ∃ inner, member.2 = .obj inner ∧ (∃ ordinal, HasOrdinal inner ordinal) ∧
        valid member.1 inner

def IsPrimitive (entry : Entry) : Prop :=
  ∃ tag primitive, entry.IsLeaf tag ∧ Primitive.ofRemoteTag? tag = some primitive

/-- A command. The argument that receives the path is not looked at, and only names of arguments can
be essential. -/
def ValidCommand (options : Options) (entry : Entry) : Prop :=
  (∃ query, entry.HasQueryFlag query) ∧
    ValidSection .arguments entry
      (fun name inner => name = options.pathArgument ∨ inner.IsPrimitive) ∧
    ∃ names, entry.HasEssentials names ∧ ∀ name ∈ names, ∃ inner, Holds .arguments entry name inner

/-- The sections of a container list properties, containers and commands, at every depth. -/
inductive ValidMembers (options : Options) : Entry → Prop
  | intro {entry : Entry}
      (parameters : ValidSection .parameters entry fun _ inner => inner.IsPrimitive)
      (children : ValidSection .children entry fun _ inner => inner.IsFixed ∨ inner.IsCollection)
      (commands : ValidSection .commands entry fun _ inner => inner.ValidCommand options)
      (inside : ∀ name inner, Holds .children entry name inner → ValidMembers options inner) :
      ValidMembers options entry

end Entry

/-- A raw schema that describes the root type. -/
def ValidSchema (options : Options) (rootType : String) (raw : Json) : Prop :=
  ∃ top entry, raw = .obj top ∧ Keyed.get? rootType top = some (.obj entry) ∧
    Entry.IsFixed entry ∧ (∃ ordinal, Entry.HasOrdinal entry ordinal) ∧
    Entry.ValidMembers options entry

end SettingsTree
