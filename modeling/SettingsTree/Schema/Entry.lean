import SettingsTree.Json.Value
import SettingsTree.Keyed
import SettingsTree.Schema.Basic

/-! # Entries of a raw schema

A remote describes its settings by nested objects. An entry is marked as a command, as a named
collection or as a primitive setting by the fields it has; without a mark it is a container with a
fixed shape. Its members stand in sections, each an object of entries, and have ordinals: a section
is read in the order of the ordinals, and entries without one come last.
-/

namespace SettingsTree

/-- The fields of an entry. -/
abbrev Entry := Keyed Json

/-- The sections of entries that an entry can have. -/
inductive Section where
  | parameters
  | children
  | commands
  | arguments
  deriving DecidableEq, Repr

def Section.key : Section → String
  | parameters => "__parameters"
  | children => "__children"
  | commands => "__commands"
  | arguments => "args"

/-- What the fields of an entry say about it. -/
inductive Mark where
  | command
  | collection
  | leaf (tag : String)
  | unmarked
  deriving DecidableEq, Repr

def Mark.kind : Mark → Kind
  | command => .command
  | collection => .collection
  | leaf _ => .property
  | unmarked => .container

structure Item where
  name : String
  entry : Entry
  ordinal : Int64

namespace Entry

def ofJson (path : String) : Json → Except SchemaError Entry
  | .obj fields => .ok fields
  | value => .error (.notAnObject path value.kind)

/-- The mark of an entry. A query flag outweighs the collection flag, and that a type. -/
def mark (path : String) (entry : Entry) : Except SchemaError Mark :=
  if Keyed.has "isQuery" entry then .ok .command
  else
    let typed : Except SchemaError Mark :=
      match Keyed.get? "type" entry with
      | none => .ok .unmarked
      | some (.str tag) => .ok (.leaf tag)
      | some _ => .error (.invalidField path "type")
    match Keyed.get? "isNamed" entry with
    | none | some .null | some (.bool false) => typed
    | some (.bool true) => .ok .collection
    | some _ => .error (.invalidField path "isNamed")

/-- The ordinal of an entry without one. -/
def lastOrdinal : Int64 := Int64.maxValue

def ordinal (path : String) (entry : Entry) : Except SchemaError Int64 :=
  match Keyed.get? "ordinal" entry with
  | none | some .null => .ok lastOrdinal
  | some value =>
    match value.int64? with
    | some ordinal => .ok ordinal
    | none => .error (.invalidField path "ordinal")

def pathOf (path name : String) : String := path ++ "/" ++ name

def item (path : String) (member : String × Json) : Except SchemaError Item := do
  let inner := pathOf path member.1
  let entry ← ofJson inner member.2
  return ⟨member.1, entry, ← ordinal inner entry⟩

def items (part : Section) (path : String) (entry : Entry) : Except SchemaError (List Item) :=
  match Keyed.get? part.key entry with
  | none | some .null => .ok []
  | some (.obj members) => members.mapM (item path)
  | some _ => .error (.invalidField path part.key)

def precedes (a b : Item) : Bool := decide (a.ordinal ≤ b.ordinal)

/-- The items of a section in the order of their ordinals; equal ordinals keep document order. -/
def sortedItems (part : Section) (path : String) (entry : Entry) : Except SchemaError (List Item) :=
  (items part path entry).map (sortOn precedes)

def essentials (path : String) (entry : Entry) : Except SchemaError (List String) :=
  match Keyed.get? "essentialArgs" entry with
  | none | some .null => .ok []
  | some value =>
    match value.strings? with
    | some names => .ok names
    | none => .error (.invalidField path "essentialArgs")

def isQuery (path : String) (entry : Entry) : Except SchemaError Bool :=
  match Keyed.get? "isQuery" entry with
  | none | some .null => .ok false
  | some (.bool flag) => .ok flag
  | some _ => .error (.invalidField path "isQuery")

theorem sizeOf_member {members : List (String × Json)} {member : String × Json}
    (h : member ∈ members) : sizeOf member.2 < sizeOf (Json.obj members) := by
  have := List.sizeOf_lt_of_mem h
  obtain ⟨name, value⟩ := member
  simp only [Prod.mk.sizeOf_spec, Json.obj.sizeOf_spec] at *
  omega

theorem sizeOf_of_get? {name : String} {value : Json} {entry : Entry}
    (h : Keyed.get? name entry = some value) : sizeOf value < sizeOf entry := by
  fun_induction Keyed.get? name entry with
  | case1 => simp at h
  | case2 e rest => obtain ⟨n, v⟩ := e; simp_all; omega
  | case3 e rest _ ih => have := ih h; simp; omega

theorem sizeOf_of_item {path : String} {member : String × Json} {read : Item}
    (h : item path member = .ok read) : sizeOf read.entry < sizeOf member.2 := by
  obtain ⟨name, value⟩ := member
  cases value with
  | obj fields =>
    simp only [item, ofJson, bind, Except.bind, pure, Except.pure] at h
    split at h
    · simp at h
    · cases h; simp
  | _ => simp [item, ofJson, bind, Except.bind] at h

theorem mem_of_mapM {α β ε : Type} {f : α → Except ε β} {as : List α} {bs : List β}
    (h : as.mapM f = .ok bs) {b : β} (hb : b ∈ bs) : ∃ a ∈ as, f a = .ok b := by
  induction as generalizing bs with
  | nil => cases h; simp at hb
  | cons a as ih =>
    rw [List.mapM_cons] at h
    simp only [bind, Except.bind, pure, Except.pure] at h
    split at h
    · simp at h
    · next b' hb' =>
      split at h
      · simp at h
      · next bs' hbs' =>
        cases h
        rcases List.mem_cons.1 hb with rfl | hb
        · exact ⟨a, List.mem_cons_self, hb'⟩
        · obtain ⟨c, hc, hcb⟩ := ih hbs' hb
          exact ⟨c, List.mem_cons_of_mem _ hc, hcb⟩

/-- The entry of an item is smaller than the entry that has the item in a section. -/
theorem sizeOf_of_mem_items {part : Section} {path : String} {entry : Entry} {found : List Item}
    (h : items part path entry = .ok found) {read : Item} (hr : read ∈ found) :
    sizeOf read.entry < sizeOf entry := by
  unfold items at h
  split at h
  · cases h; simp at hr
  · cases h; simp at hr
  · next members hm =>
    obtain ⟨member, hmem, hread⟩ := mem_of_mapM h hr
    have h1 := sizeOf_of_item hread
    have h2 := sizeOf_member hmem
    have h3 := sizeOf_of_get? hm
    omega
  · simp at h

/-- The items of a section in order, each with the fact that it is smaller than the entry. -/
def smallerItems (part : Section) (path : String) (entry : Entry) :
    Except SchemaError (List { read : Item // sizeOf read.entry < sizeOf entry }) :=
  match h : items part path entry with
  | .error fault => .error fault
  | .ok found =>
    .ok (sortOn (fun a b => precedes a.1 b.1)
      (found.attach.map fun read => ⟨read.1, sizeOf_of_mem_items h read.2⟩))

end Entry

end SettingsTree
