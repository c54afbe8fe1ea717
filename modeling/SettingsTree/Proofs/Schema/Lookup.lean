import Mathlib.Data.List.Perm.Basic
import SettingsTree.Schema.Descriptor

/-! # Members by name

When the members of a container have pairwise different local names, looking up a local name finds
exactly the member that has it, wherever the member stands.
-/

namespace SettingsTree

open Descriptor

def Member.descriptor : Member → Descriptor
  | property d => d
  | child d => d
  | command d => d

/-- All members, in the order in which they are looked up. -/
def Members.all (members : Members) : List Member :=
  members.properties.map .property ++ members.children.map .child ++ members.commands.map .command

theorem find?_name_eq_some_iff {α : Type} {name : α → String} {l : List α}
    (nodup : (l.map name).Nodup) {wanted : String} {a : α} :
    l.find? (fun b => name b = wanted) = some a ↔ a ∈ l ∧ name a = wanted := by
  constructor
  · intro h
    exact ⟨List.mem_of_find?_eq_some h, by simpa using List.find?_some h⟩
  · rintro ⟨ha, rfl⟩
    induction l with
    | nil => simp at ha
    | cons first rest ih =>
      rw [List.map_cons, List.nodup_cons] at nodup
      rcases List.mem_cons.1 ha with rfl | ha
      · simp
      · have hne : name first ≠ name a := fun heq => nodup.1 (heq ▸ List.mem_map_of_mem ha)
        rw [List.find?_cons_of_neg (by simpa using hne)]
        exact ih nodup.2 ha

theorem byLocal?_eq_some_iff {ds : List Descriptor} (nodup : (ds.map localName).Nodup)
    {name : String} {d : Descriptor} :
    byLocal? name ds = some d ↔ d ∈ ds ∧ d.localName = name := find?_name_eq_some_iff nodup

theorem byLocal?_eq_none_iff {ds : List Descriptor} {name : String} :
    byLocal? name ds = none ↔ ∀ d ∈ ds, d.localName ≠ name := by
  simp [byLocal?, List.find?_eq_none]

theorem map_byLocal?_eq_some_iff {ds : List Descriptor} (nodup : (ds.map localName).Nodup)
    {α : Type} {f : Descriptor → α} {name : String} {a : α} :
    (byLocal? name ds).map f = some a ↔ ∃ d ∈ ds, d.localName = name ∧ f d = a := by
  simp only [Option.map_eq_some_iff, byLocal?_eq_some_iff nodup, and_assoc]

/-- No name is shared between two of the three lists, nor inside one of them. -/
theorem Members.names_nodup {members : Members} {name : Descriptor → String}
    (nodup : (members.all.map fun m => name m.descriptor).Nodup) :
    (members.properties.map name).Nodup ∧ (members.children.map name).Nodup ∧
      (members.commands.map name).Nodup ∧
      (∀ c ∈ members.children, ∀ p ∈ members.properties, name p ≠ name c) ∧
      (∀ k ∈ members.commands, (∀ p ∈ members.properties, name p ≠ name k) ∧
        ∀ c ∈ members.children, name c ≠ name k) := by
  simp only [all, List.map_append, List.map_map, Function.comp_def, Member.descriptor,
    List.nodup_append, List.mem_append, List.mem_map] at nodup
  obtain ⟨⟨hp, hc, hpc⟩, hk, hpck⟩ := nodup
  refine ⟨hp, hc, hk, fun c hcm p hpm => ?_, fun k hkm => ⟨fun p hpm => ?_, fun c hcm => ?_⟩⟩
  · exact hpc _ ⟨p, hpm, rfl⟩ _ ⟨c, hcm, rfl⟩
  · exact hpck _ (Or.inl ⟨p, hpm, rfl⟩) _ ⟨k, hkm, rfl⟩
  · exact hpck _ (Or.inr ⟨c, hcm, rfl⟩) _ ⟨k, hkm, rfl⟩

/-- A local name leads to the very member that has it, and to none if no member has it. -/
theorem Members.lookup?_eq_some_iff {members : Members}
    (nodup : (members.all.map fun m => m.descriptor.localName).Nodup) {name : String}
    {found : Member} :
    members.lookup? name = some found ↔
      found ∈ members.all ∧ found.descriptor.localName = name := by
  obtain ⟨hp, hc, hk, hpc, hpck⟩ := Members.names_nodup nodup
  constructor
  · intro h
    unfold lookup? at h
    split at h
    · next d hd =>
      cases h
      rw [byLocal?_eq_some_iff hp] at hd
      exact ⟨by simp [all, hd.1], hd.2⟩
    · split at h
      · next d hd =>
        cases h
        rw [byLocal?_eq_some_iff hc] at hd
        exact ⟨by simp [all, hd.1], hd.2⟩
      · obtain ⟨d, hd, hname, rfl⟩ := (map_byLocal?_eq_some_iff hk).1 h
        exact ⟨by simp [all, hd], hname⟩
  · rintro ⟨hmem, rfl⟩
    unfold lookup?
    cases found with
    | property p =>
      have hfound := (byLocal?_eq_some_iff hp).2 ⟨by simpa [all] using hmem, rfl⟩
      simp [Member.descriptor, hfound]
    | child c =>
      have hmem : c ∈ members.children := by simpa [all] using hmem
      have hnone := byLocal?_eq_none_iff.2 fun p hpm => hpc c hmem p hpm
      have hfound := (byLocal?_eq_some_iff hc).2 ⟨hmem, rfl⟩
      simp [Member.descriptor, hnone, hfound]
    | command k =>
      have hmem : k ∈ members.commands := by simpa [all] using hmem
      have hnone := byLocal?_eq_none_iff.2 (hpck k hmem).1
      have hnone' := byLocal?_eq_none_iff.2 (hpck k hmem).2
      have hfound := (byLocal?_eq_some_iff hk).2 ⟨hmem, rfl⟩
      simp [Member.descriptor, hnone, hnone', hfound]

end SettingsTree
