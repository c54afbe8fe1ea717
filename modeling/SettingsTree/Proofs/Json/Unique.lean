import SettingsTree.Json.Value

/-! # Values without repeated names

A value held in memory is made of maps: no object has two members of one name. Documents that repeat
a name are resolved when they are read.
-/

namespace SettingsTree.Json

/-- Values by what they consist of: whatever holds of the items of an array and of the values in an
object carries over to the whole. -/
@[elab_as_elim, induction_eliminator]
theorem induct {motive : Json → Prop} (null : motive .null) (bool : ∀ value, motive (.bool value))
    (num : ∀ value, motive (.num value)) (str : ∀ value, motive (.str value))
    (arr : ∀ items, (∀ item ∈ items, motive item) → motive (.arr items))
    (obj : ∀ members, (∀ member ∈ members, motive member.2) → motive (.obj members))
    (value : Json) : motive value :=
  @Json.rec motive (fun items => ∀ item ∈ items, motive item)
    (fun members => ∀ member ∈ members, motive member.2) (fun member => motive member.2)
    null bool num str arr obj
    (fun _ h => absurd h List.not_mem_nil)
    (fun _ _ hd hds _ hmem => (List.mem_cons.1 hmem).elim (fun h => h ▸ hd) (hds _))
    (fun _ h => absurd h List.not_mem_nil)
    (fun _ _ hd hds _ hmem => (List.mem_cons.1 hmem).elim (fun h => h ▸ hd) (hds _))
    (fun _ _ h => h) value

mutual
/-- No object in the value has two members of one name. -/
def Unique : Json → Prop
  | arr items => UniqueItems items
  | obj members => Keyed.Distinct members ∧ UniqueMembers members
  | _ => True
def UniqueItems : List Json → Prop
  | [] => True
  | item :: rest => item.Unique ∧ UniqueItems rest
def UniqueMembers : List (String × Json) → Prop
  | [] => True
  | member :: rest => member.2.Unique ∧ UniqueMembers rest
end

theorem uniqueItems_iff {items : List Json} :
    UniqueItems items ↔ ∀ item ∈ items, item.Unique := by
  induction items with
  | nil => simp [UniqueItems]
  | cons item rest ih => simp [UniqueItems, ih]

theorem uniqueMembers_iff {members : List (String × Json)} :
    UniqueMembers members ↔ ∀ member ∈ members, member.2.Unique := by
  induction members with
  | nil => simp [UniqueMembers]
  | cons member rest ih => simp [UniqueMembers, ih]

theorem Unique.distinct {members : Keyed Json} (h : (obj members).Unique) :
    Keyed.Distinct members := h.1

theorem Unique.member {members : Keyed Json} (h : (obj members).Unique) {member : String × Json}
    (mem : member ∈ members) : member.2.Unique := uniqueMembers_iff.1 h.2 member mem

end SettingsTree.Json
