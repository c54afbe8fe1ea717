import Mathlib.Data.List.Forall2
import SettingsTree.Name.Local
import SettingsTree.Proofs.Name.Local

/-! # Siblings have different local names

The names that siblings receive are pairwise different, one for each sibling. The induction runs
over the siblings that still wait for a name: those that occur once will keep theirs, so no name
handed out before may be one of them.

The local name of a remote identifier is not reserved. A name that is numbered to tell siblings
apart is none of the common reserved words, but it may be one of the further ones.
-/

namespace SettingsTree.Name

theorem repr_injective : Function.Injective Nat.repr := by
  intro a b h
  rw [← Nat.ofDigitChars_ten_toDigits (n := a), ← Nat.ofDigitChars_ten_toDigits (n := b),
    ← Nat.toList_repr, ← Nat.toList_repr, h]

theorem numbered_injective (name : String) : Function.Injective (numbered name) := by
  intro a b h
  have hlist := congrArg String.toList h
  simp only [numbered, String.toList_append, List.append_cancel_left_eq] at hlist
  exact repr_injective (String.toList_injective hlist)

theorem numbered_succ_injective (name : String) :
    Function.Injective fun i => numbered name (i + 1) := by
  intro a b h
  exact Nat.succ.inj (numbered_injective name h)

theorem distinguish_of_single {single given : List String} {name : String} (h : name ∈ single) :
    distinguish single given name = name := by simp [distinguish, h]

theorem distinguish_of_given {single given : List String} {name : String} (hs : name ∉ single)
    (hg : name ∈ given) : distinguish single given name ∉ single ++ given := by
  have hfree := (leastFree_spec (single ++ given) (numbered_succ_injective name)).1
  simpa [distinguish, hs, hg] using hfree

/-- A name that is handed out is new, unless it is kept by the only sibling that has it. -/
theorem distinguish_fresh {single given : List String} {name : String}
    (h : name ∈ single → name ∉ given) : distinguish single given name ∉ given := by
  by_cases hs : name ∈ single
  · rw [distinguish_of_single hs]
    exact h hs
  · by_cases hg : name ∈ given
    · exact fun hmem => distinguish_of_given hs hg (List.mem_append_right _ hmem)
    · simp [distinguish, hs, hg]

/-- What is handed out is either the sibling's own name or none of those that occur once. -/
theorem distinguish_eq_or_not_single (single given : List String) (name : String) :
    distinguish single given name = name ∨ distinguish single given name ∉ single := by
  by_cases hs : name ∈ single
  · exact Or.inl (distinguish_of_single hs)
  · by_cases hg : name ∈ given
    · exact Or.inr fun hmem => distinguish_of_given hs hg (List.mem_append_left _ hmem)
    · exact Or.inl (by simp [distinguish, hs, hg])

theorem distinguishAfter_spec {single given names : List String}
    (h : ∀ name ∈ names, name ∈ single → names.count name = 1 ∧ name ∉ given) :
    (distinguishAfter single given names).Nodup ∧
      ∀ chosen ∈ distinguishAfter single given names, chosen ∉ given := by
  induction names generalizing given with
  | nil => simp [distinguishAfter]
  | cons name rest ih =>
    have hchosen : distinguish single given name ∉ given :=
      distinguish_fresh fun hs => (h name List.mem_cons_self hs).2
    have hrest : ∀ other ∈ rest, other ∈ single →
        rest.count other = 1 ∧ other ∉ distinguish single given name :: given := by
      intro other hmem hs
      obtain ⟨hcount, hgiven⟩ := h other (List.mem_cons_of_mem _ hmem) hs
      have hpos : 0 < rest.count other := List.count_pos_iff.2 hmem
      have hne : name ≠ other := by
        rintro rfl
        rw [List.count_cons_self] at hcount
        omega
      refine ⟨by rwa [List.count_cons_of_ne hne] at hcount, ?_⟩
      rw [List.mem_cons, not_or]
      refine ⟨?_, hgiven⟩
      rintro rfl
      rcases distinguish_eq_or_not_single single given name with heq | hnot
      · exact hne heq.symm
      · exact hnot hs
    obtain ⟨hnodup, hfresh⟩ := ih hrest
    constructor
    · exact List.nodup_cons.2 ⟨fun hmem => hfresh _ hmem List.mem_cons_self, hnodup⟩
    · intro chosen hmem
      rcases List.mem_cons.1 hmem with rfl | hmem
      · exact hchosen
      · exact fun hgiven => hfresh _ hmem (List.mem_cons_of_mem _ hgiven)

@[simp] theorem distinguishAfter_length (single given names : List String) :
    (distinguishAfter single given names).length = names.length := by
  induction names generalizing given with
  | nil => rfl
  | cons name rest ih => simp [distinguishAfter, ih]

@[simp] theorem distinguishAll_length (names : List String) :
    (distinguishAll names).length = names.length := distinguishAfter_length _ _ _

theorem distinguishAll_nodup (names : List String) : (distinguishAll names).Nodup := by
  refine (distinguishAfter_spec fun name hmem hs => ⟨?_, List.not_mem_nil⟩).1
  simpa using (List.mem_filter.1 hs).2

/-! ### Reserved words -/

namespace Naming

variable (naming : Naming)

theorem isReserved_iff {name : String} :
    naming.isReserved name ↔ name ∈ reservedWords ∨ name ∈ naming.extra := by
  rw [isReserved, List.contains_iff_mem, reserved, List.mem_append]

theorem not_isReserved_localName {remote : String} (h : remote ≠ "") :
    ¬ naming.isReserved (naming.localName remote) := by
  rw [isReserved, List.contains_iff_mem, localName, if_neg h]
  exact (leastFree_spec naming.reserved (pad_injective (snakeCase remote))).1

end Naming

/-- No common reserved word has an underscore. -/
theorem numbered_not_mem_reservedWords (name : String) (number : Nat) :
    numbered name number ∉ reservedWords := by
  have hplain : ∀ word ∈ reservedWords, '_' ∉ word.toList := by decide +kernel
  exact fun hmem => hplain _ hmem (by simp [numbered])

/-! ### What siblings are called -/

/-- A sibling keeps its name or is numbered. -/
def Distinguished (chosen name : String) : Prop :=
  chosen = name ∨ ∃ number, 0 < number ∧ chosen = numbered name number

theorem distinguished_distinguish (single given : List String) (name : String) :
    Distinguished (distinguish single given name) name := by
  unfold distinguish
  split
  · exact Or.inl rfl
  · split
    · exact Or.inr ⟨_, Nat.succ_pos _, rfl⟩
    · exact Or.inl rfl

theorem distinguished_distinguishAfter (single given names : List String) :
    List.Forall₂ Distinguished (distinguishAfter single given names) names := by
  induction names generalizing given with
  | nil => exact .nil
  | cons name rest ih => exact .cons (distinguished_distinguish single given name) (ih _)

theorem distinguished_distinguishAll (names : List String) :
    List.Forall₂ Distinguished (distinguishAll names) names :=
  distinguished_distinguishAfter _ _ _

end SettingsTree.Name
