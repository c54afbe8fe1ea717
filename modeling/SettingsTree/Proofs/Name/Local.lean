import Mathlib.Data.List.Nodup
import Mathlib.Data.List.Perm.Subperm
import SettingsTree.Name.Local
import SettingsTree.Proofs.Ordering

/-! # Local names depend on the set of reserved words

When the candidates are pairwise different, the number found is the least one whose candidate is not
taken, and so it depends only on which names are taken.
-/

namespace SettingsTree.Name

variable {candidate : Nat → String}

/-- Among one candidate more than there are taken names one is free. -/
theorem exists_free (taken : List String) (injective : Function.Injective candidate) :
    ∃ i ∈ List.range (taken.length + 1), candidate i ∉ taken := by
  by_contra h
  push Not at h
  have hsub : (List.range (taken.length + 1)).map candidate ⊆ taken := by
    intro name hname
    obtain ⟨i, hi, rfl⟩ := List.mem_map.1 hname
    exact h i hi
  have hlen := (List.subperm_of_subset (List.nodup_range.map injective) hsub).length_le
  rw [List.length_map, List.length_range] at hlen
  omega

theorem leastFree_spec (taken : List String) (injective : Function.Injective candidate) :
    candidate (leastFree taken candidate) ∉ taken ∧
      ∀ i < leastFree taken candidate, candidate i ∈ taken := by
  obtain ⟨i, hi, hfree⟩ := exists_free taken injective
  cases hfound : (List.range (taken.length + 1)).find? fun i => !taken.contains (candidate i) with
  | none => simpa [hfree] using List.find?_eq_none.1 hfound i hi
  | some n =>
    have hn : leastFree taken candidate = n := by rw [leastFree, hfound]; rfl
    rw [List.find?_range_eq_some] at hfound
    rw [hn]
    exact ⟨by simpa using hfound.1, fun j hj => by simpa using hfound.2.2 j hj⟩

theorem leastFree_eq_iff {taken : List String} (injective : Function.Injective candidate)
    {n : Nat} :
    leastFree taken candidate = n ↔ candidate n ∉ taken ∧ ∀ i < n, candidate i ∈ taken := by
  have hspec := leastFree_spec taken injective
  constructor
  · rintro rfl
    exact hspec
  · rintro ⟨hfree, hbelow⟩
    rcases Nat.lt_trichotomy (leastFree taken candidate) n with h | h | h
    · exact absurd (hbelow _ h) hspec.1
    · exact h
    · exact absurd (hspec.2 _ h) hfree

/-- How often and in what order the taken names are listed does not matter. -/
theorem leastFree_congr {taken others : List String} (injective : Function.Injective candidate)
    (h : ∀ name, name ∈ taken ↔ name ∈ others) :
    leastFree taken candidate = leastFree others candidate := by
  rw [leastFree_eq_iff injective]
  have hspec := leastFree_spec others injective
  exact ⟨fun hmem => hspec.1 ((h _).1 hmem), fun i hi => (h _).2 (hspec.2 i hi)⟩

namespace Naming

theorem pad_injective (name : String) : Function.Injective (pad name) := by
  intro a b h
  have hlist := congrArg String.toList h
  simp only [pad, String.toList_append, String.toList_ofList, List.append_cancel_left_eq] at hlist
  simpa using congrArg List.length hlist

theorem mem_extraSorted {naming : Naming} {name : String} :
    name ∈ naming.extraSorted ↔ name ∈ naming.extra := by
  rw [extraSorted, mem_sortOn, List.mem_eraseDups]

/-- The first of several equal elements is kept. -/
theorem nodup_eraseDups (names : List String) : names.eraseDups.Nodup := by
  cases names with
  | nil => simp
  | cons name rest =>
    rw [List.eraseDups_cons, List.nodup_cons, List.mem_eraseDups]
    exact ⟨by simp, nodup_eraseDups _⟩
termination_by names.length
decreasing_by exact Nat.lt_succ_of_le (List.length_filter_le _ rest)

theorem extraSorted_congr {naming other : Naming}
    (h : ∀ name, name ∈ naming.extra ↔ name ∈ other.extra) :
    naming.extraSorted = other.extraSorted := by
  have hperm : naming.extra.eraseDups.Perm other.extra.eraseDups := by
    rw [List.perm_ext_iff_of_nodup (nodup_eraseDups _) (nodup_eraseDups _)]
    intro name
    rw [List.mem_eraseDups, List.mem_eraseDups, h]
  exact sortOn_key_congr id hperm fun _ _ _ _ heq => heq

/-- In what order and how often further words are reserved does not matter. -/
theorem localName_congr {naming other : Naming}
    (h : ∀ name, name ∈ naming.extra ↔ name ∈ other.extra) :
    naming.localName = other.localName := by
  funext remote
  have hreserved : ∀ name, name ∈ naming.reserved ↔ name ∈ other.reserved := by
    intro name
    rw [reserved, reserved, List.mem_append, List.mem_append, h]
  unfold localName
  split
  · rfl
  · dsimp only
    rw [leastFree_congr (pad_injective _) hreserved]

end Naming

end SettingsTree.Name
