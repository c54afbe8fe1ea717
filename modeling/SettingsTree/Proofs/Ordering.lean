import Mathlib.Data.List.Perm.Basic
import SettingsTree.Keyed

/-! # Laws of stable sorting

Sorting permutes a list into order and keeps the elements of one rank, that is elements that may
stand on either side of one another, in their sequence. These two facts determine the sorted list.
-/

namespace SettingsTree

variable {α β : Type} {le : α → α → Bool}

/-- Neither of two elements has to stand before the other. -/
def tied (le : α → α → Bool) (a b : α) : Bool := le a b && le b a

theorem insertOn_perm (le : α → α → Bool) (a : α) (l : List α) :
    (insertOn le a l).Perm (a :: l) := by
  induction l with
  | nil => exact List.Perm.refl _
  | cons b rest ih =>
    rw [insertOn]
    split
    · exact List.Perm.refl _
    · exact (ih.cons b).trans (List.Perm.swap a b rest)

theorem sortOn_perm (le : α → α → Bool) (l : List α) : (sortOn le l).Perm l := by
  induction l with
  | nil => exact List.Perm.refl _
  | cons a rest ih => exact (insertOn_perm le a _).trans (ih.cons a)

theorem mem_sortOn {a : α} {l : List α} : a ∈ sortOn le l ↔ a ∈ l := (sortOn_perm le l).mem_iff

theorem insertOn_pairwise (total : ∀ a b, le a b || le b a)
    (trans : ∀ a b c, le a b → le b c → le a c) (a : α) {l : List α}
    (h : l.Pairwise fun a b => le a b) : (insertOn le a l).Pairwise fun a b => le a b := by
  induction l with
  | nil => simp [insertOn]
  | cons b rest ih =>
    obtain ⟨hb, hrest⟩ := List.pairwise_cons.1 h
    rw [insertOn]
    split
    · next hab =>
      refine List.pairwise_cons.2 ⟨fun c hc => ?_, h⟩
      rcases List.mem_cons.1 hc with rfl | hc
      · exact hab
      · exact trans _ _ _ hab (hb c hc)
    · next hab =>
      refine List.pairwise_cons.2 ⟨fun c hc => ?_, ih hrest⟩
      rcases List.mem_cons.1 ((insertOn_perm le a rest).mem_iff.1 hc) with rfl | hc
      · have := total c b
        simp_all
      · exact hb c hc

theorem sortOn_pairwise (total : ∀ a b, le a b || le b a)
    (trans : ∀ a b c, le a b → le b c → le a c) (l : List α) :
    (sortOn le l).Pairwise fun a b => le a b := by
  induction l with
  | nil => exact List.Pairwise.nil
  | cons a rest ih => exact insertOn_pairwise total trans a ih

/-- Elements that may stand in any order are met in the sequence in which they were inserted. -/
theorem insertOn_filter {keep : α → Bool} (hkeep : ∀ a b, keep a → keep b → le a b) (a : α)
    (l : List α) : (insertOn le a l).filter keep = (a :: l).filter keep := by
  induction l with
  | nil => rfl
  | cons b rest ih =>
    rw [insertOn]
    split
    · rfl
    · next hab =>
      rw [List.filter_cons, ih]
      by_cases ha : keep a = true <;> by_cases hb : keep b = true
      · exact absurd (hkeep a b ha hb) hab
      all_goals simp [ha, hb]

theorem sortOn_filter {keep : α → Bool} (hkeep : ∀ a b, keep a → keep b → le a b)
    (l : List α) : (sortOn le l).filter keep = l.filter keep := by
  induction l with
  | nil => rfl
  | cons a rest ih =>
    rw [sortOn, insertOn_filter hkeep, List.filter_cons, ih, List.filter_cons]

/-- Two lists in order are equal when they have the same elements of every rank in the same
sequence. -/
theorem eq_of_pairwise_of_filter (refl : ∀ a, le a a) {l m : List α}
    (hl : l.Pairwise fun a b => le a b) (hm : m.Pairwise fun a b => le a b)
    (h : ∀ c ∈ l ++ m, l.filter (tied le c) = m.filter (tied le c)) : l = m := by
  have htied (c : α) : tied le c c = true := by simp [tied, refl]
  induction l generalizing m with
  | nil =>
    cases m with
    | nil => rfl
    | cons b rest => simpa [htied] using h b (by simp)
  | cons a l ih =>
    cases m with
    | nil => simpa [htied] using h a (by simp)
    | cons b m =>
      obtain ⟨ha, hl'⟩ := List.pairwise_cons.1 hl
      obtain ⟨hb, hm'⟩ := List.pairwise_cons.1 hm
      have hba : le b a := by
        have hmem : a ∈ (b :: m).filter (tied le a) := h a (by simp) ▸ by simp [htied]
        rcases List.mem_cons.1 (List.mem_filter.1 hmem).1 with rfl | hmem
        · exact refl a
        · exact hb a hmem
      have hab : le a b := by
        have hmem : b ∈ (a :: l).filter (tied le b) := h b (by simp) ▸ by simp [htied]
        rcases List.mem_cons.1 (List.mem_filter.1 hmem).1 with rfl | hmem
        · exact refl b
        · exact ha b hmem
      have heq : a = b := by
        have := h a (by simp)
        rw [List.filter_cons_of_pos (htied a),
          List.filter_cons_of_pos (by simp [tied, hab, hba])] at this
        exact (List.cons.inj this).1
      subst heq
      congr 1
      apply ih hl' hm'
      intro c hc
      have := h c (by simp at hc ⊢; tauto)
      by_cases hca : tied le c a = true
      · rw [List.filter_cons_of_pos hca, List.filter_cons_of_pos hca] at this
        exact (List.cons.inj this).2
      · rwa [List.filter_cons_of_neg hca, List.filter_cons_of_neg hca] at this

theorem insertOn_map (f : β → α) (b : β) (l : List β) :
    insertOn le (f b) (l.map f) = (insertOn (fun a c => le (f a) (f c)) b l).map f := by
  induction l with
  | nil => rfl
  | cons c rest ih =>
    rw [List.map_cons, insertOn, insertOn]
    split
    · rfl
    · rw [ih, List.map_cons]

theorem sortOn_map (f : β → α) (l : List β) :
    sortOn le (l.map f) = (sortOn (fun a c => le (f a) (f c)) l).map f := by
  induction l with
  | nil => rfl
  | cons b rest ih => rw [List.map_cons, sortOn, ih, insertOn_map, sortOn]

/-! ### Sorting by a text -/

theorem sortOn_key_pairwise (key : α → String) (l : List α) :
    (sortOn (fun a b => decide (key a ≤ key b)) l).Pairwise fun a b => key a ≤ key b := by
  have htrans (a b c : α) (hab : decide (key a ≤ key b)) (hbc : decide (key b ≤ key c)) :
      decide (key a ≤ key c) :=
    decide_eq_true (String.le_trans (of_decide_eq_true hab) (of_decide_eq_true hbc))
  have hpairs := sortOn_pairwise (fun a b => by simpa using String.le_total (key a) (key b))
    htrans l
  exact hpairs.imp of_decide_eq_true

/-- Elements whose texts differ have one order, whatever order they stood in. -/
theorem sortOn_key_congr (key : α → String) {l m : List α} (perm : l.Perm m)
    (inj : ∀ a ∈ l, ∀ b ∈ l, key a = key b → a = b) :
    sortOn (fun a b => decide (key a ≤ key b)) l =
      sortOn (fun a b => decide (key a ≤ key b)) m := by
  refine List.Perm.eq_of_pairwise ?_ (sortOn_key_pairwise key l) (sortOn_key_pairwise key m)
    (((sortOn_perm _ l).trans perm).trans (sortOn_perm _ m).symm)
  intro a b ha hb hab hba
  exact inj a (mem_sortOn.1 ha) b (perm.mem_iff.2 (mem_sortOn.1 hb)) (String.le_antisymm hab hba)

end SettingsTree
