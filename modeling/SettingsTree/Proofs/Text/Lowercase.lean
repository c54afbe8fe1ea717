import SettingsTree.Text.Basic
import SettingsTree.Text.Lowercase

/-! # Lower case is final

What lower-casing produces it leaves as it is, wherever it stands. For the letters of the table this
is seen run by run: the partners of the letters of a run are letters of no run.
-/

namespace SettingsTree.Text

/-- Lower-casing leaves a character as it is, whatever stands before it and behind it. -/
def Settled (c : Char) : Prop :=
  ∀ before rest, lowerAfter before (c :: rest) = c :: lowerAfter (c :: before) rest

/-! ### The table of partners -/

/-- A run of letters in the table: first and last code point, distance, what is added. -/
abbrev LetterRun := Nat × Nat × Nat × Int

def LetterRun.Has (run : LetterRun) (code : Nat) : Prop :=
  run.1 ≤ code ∧ code ≤ run.2.1 ∧ (code - run.1) % run.2.2.1 = 0

instance (run : LetterRun) (code : Nat) : Decidable (run.Has code) :=
  inferInstanceAs (Decidable (_ ∧ _ ∧ _))

/-- Whether a run may have one of the letters from `first` to `last` at a distance of `step`. It has
none if it has every second letter, and the others are those in between. -/
def LetterRun.meets (first last step : Nat) (run : LetterRun) : Bool :=
  Nat.ble run.1 last && Nat.ble first run.2.1 &&
    !(Nat.beq step 2 && Nat.beq run.2.2.1 2 && Nat.beq ((first + run.1) % 2) 1)

/-- Whether a run may have a partner of a letter of `run`. A single letter may be counted as one of
every two. -/
def LetterRun.meetsPartners (run other : LetterRun) : Bool :=
  LetterRun.meets (run.1 + run.2.2.2).toNat (run.2.1 + run.2.2.2).toNat
    (bif Nat.beq run.1 run.2.1 then 2 else run.2.2.1) other

/-- A letter that has a partner, or the dotted capital, which has two. -/
def letterRuns : List LetterRun := (0x130, 0x130, 1, 0) :: lowerRuns

theorem lowerRuns_meet_none :
    (lowerRuns.any fun run => letterRuns.any (LetterRun.meetsPartners run)) = false := by
  decide +kernel

theorem lowerRuns_nonneg : ∀ run ∈ lowerRuns, 0 ≤ run.1 + run.2.2.2 := by
  decide +kernel

/-- Among the ASCII characters the capitals are the letters with a partner. -/
theorem letterRuns_ascii : ∀ run ∈ letterRuns,
    0 < run.1 ∧ (run.1 < 0x80 → 0x41 ≤ run.1 ∧ run.2.1 ≤ 0x5A) := by
  decide +kernel

theorem LetterRun.not_has_of_not_meets {run : LetterRun} {first last step code : Nat}
    (h : LetterRun.meets first last step run = false) (hfirst : first ≤ code) (hlast : code ≤ last)
    (hstep : (code - first) % step = 0) : ¬run.Has code := by
  rintro ⟨hlo, hhi, hrun⟩
  have hlow : Nat.ble run.1 last = true := Nat.ble_eq_true_of_le (Nat.le_trans hlo hlast)
  have hhigh : Nat.ble first run.2.1 = true := Nat.ble_eq_true_of_le (Nat.le_trans hfirst hhi)
  simp only [meets, hlow, hhigh, Bool.and_self, Bool.true_and, Bool.not_eq_false',
    Bool.and_eq_true, Nat.beq_eq] at h
  obtain ⟨⟨htwo, htwo'⟩, hodd⟩ := h
  rw [htwo] at hstep
  rw [htwo'] at hrun
  omega

/-- The partner of a letter has no partner. -/
theorem not_has_partner {run other : LetterRun} (hrun : run ∈ lowerRuns)
    (hother : other ∈ letterRuns) {code : Nat} (h : run.Has code) :
    ¬other.Has (code + run.2.2.2).toNat := by
  have hnone := lowerRuns_meet_none
  rw [List.any_eq_false] at hnone
  have hmeets := hnone run hrun
  rw [Bool.not_eq_true, List.any_eq_false] at hmeets
  have hpair := hmeets other hother
  have hnonneg := lowerRuns_nonneg run hrun
  obtain ⟨hlo, hhi, hstep⟩ := h
  apply LetterRun.not_has_of_not_meets (Bool.not_eq_true _ ▸ hpair)
  · omega
  · omega
  · have hdist : (code + run.2.2.2).toNat - (run.1 + run.2.2.2).toNat = code - run.1 := by omega
    rw [hdist]
    cases hone : Nat.beq run.1 run.2.1 with
    | true =>
      rw [Nat.beq_eq] at hone
      have hsame : code - run.1 = 0 := by omega
      rw [hsame, Nat.zero_mod]
    | false => exact hstep

/-! ### Characters that stay as they are -/

variable {c d : Char} {text : List Char}

theorem toNat_ofNat (code : Nat) :
    (Char.ofNat code).toNat = code ∨ (Char.ofNat code).toNat = 0 := by
  by_cases h : code.isValidChar
  · rw [Char.ofNat, dif_pos h]
    exact Or.inl rfl
  · rw [Char.ofNat, dif_neg h]
    exact Or.inr rfl

theorem lowerPartner_cases (c : Char) :
    (∃ run ∈ lowerRuns, LetterRun.Has run c.toNat ∧
      lowerPartner c = Char.ofNat (c.toNat + run.2.2.2 : Int).toNat) ∨
    (∀ run ∈ lowerRuns, ¬LetterRun.Has run c.toNat) ∧ lowerPartner c = c := by
  unfold lowerPartner
  split
  · next run hfind =>
    have hhas := List.find?_some hfind
    simp only [Bool.and_eq_true, decide_eq_true_eq] at hhas
    exact Or.inl ⟨run, List.mem_of_find?_eq_some hfind, ⟨hhas.1.1, hhas.1.2, hhas.2⟩, rfl⟩
  · next hfind =>
    refine Or.inr ⟨fun run hrun => ?_, rfl⟩
    rintro ⟨hlo, hhi, hstep⟩
    have hnone := List.find?_eq_none.1 hfind run hrun
    simp [hlo, hhi, hstep] at hnone

/-- A partner belongs to no run of letters. -/
theorem not_has_lowerPartner (hdotted : c ≠ 'İ') :
    ∀ run ∈ letterRuns, ¬LetterRun.Has run (lowerPartner c).toNat := by
  intro other hother
  rcases lowerPartner_cases c with ⟨run, hrun, hhas, hpartner⟩ | ⟨hnone, hpartner⟩
  · rw [hpartner]
    rcases toNat_ofNat (c.toNat + run.2.2.2 : Int).toNat with hcode | hcode
    · rw [hcode]
      exact not_has_partner hrun hother hhas
    · rintro ⟨hlo, -⟩
      have hpos := (letterRuns_ascii other hother).1
      omega
  · rw [hpartner]
    rcases List.mem_cons.1 hother with rfl | hmem
    · rintro ⟨hlo, hhi, -⟩
      exact hdotted (Char.toNat_inj.1 (Nat.le_antisymm hhi hlo))
    · exact hnone other hmem

theorem lowerPartner_eq_self (h : ∀ run ∈ letterRuns, ¬LetterRun.Has run c.toNat) :
    lowerPartner c = c := by
  rcases lowerPartner_cases c with ⟨run, hrun, hhas, -⟩ | ⟨-, hpartner⟩
  · exact absurd hhas (h run (List.mem_cons_of_mem _ hrun))
  · exact hpartner

theorem settled_of_not_has (h : ∀ run ∈ letterRuns, ¬LetterRun.Has run c.toNat) : Settled c := by
  intro before rest
  have hdotted : c ≠ 'İ' := by
    rintro rfl
    exact h _ List.mem_cons_self (by decide)
  have hsigma : c ≠ 'Σ' := by
    rintro rfl
    exact h (0x3A3, 0x3AB, 1, 32) (by decide +kernel) (by decide)
  have hcapital : ¬isCapital c := by
    rw [isCapital_iff]
    intro hc
    exact h (0x41, 0x5A, 1, 32) (by decide +kernel) ⟨hc.1, hc.2, Nat.mod_one _⟩
  rw [lowerAfter, if_neg hsigma, lowerChar, if_neg hdotted, if_neg hcapital,
    lowerPartner_eq_self h]
  simp

theorem settled_of_ascii (hascii : c.toNat < 0x80) (hcapital : ¬isCapital c) : Settled c := by
  apply settled_of_not_has
  rintro run hrun ⟨hlo, hhi, -⟩
  have hrange := (letterRuns_ascii run hrun).2
  rw [isCapital_iff] at hcapital
  omega

theorem settled_of_mem_lowerChar (h : d ∈ lowerChar c) : Settled d := by
  unfold lowerChar at h
  split at h
  · next hascii =>
    rw [List.mem_singleton] at h
    subst h
    split
    · next hcapital =>
      rw [isCapital_iff] at hcapital
      rcases toNat_ofNat (c.toNat + 32) with hcode | hcode
      all_goals
        apply settled_of_ascii
        · omega
        · rw [isCapital_iff]
          omega
    · next hcapital => exact settled_of_ascii hascii hcapital
  · split at h
    · simp only [List.mem_cons, List.not_mem_nil, or_false] at h
      rcases h with rfl | rfl
      · exact settled_of_ascii (by decide) (by decide)
      · exact settled_of_not_has (by decide +kernel)
    · next hdotted =>
      rw [List.mem_singleton] at h
      subst h
      exact settled_of_not_has (not_has_lowerPartner hdotted)

/-! ### Texts in lower case -/

theorem settled_of_mem_lowerAfter {before : List Char} (h : d ∈ lowerAfter before text) :
    Settled d := by
  induction text generalizing before with
  | nil => simp [lowerAfter] at h
  | cons c rest ih =>
    rw [lowerAfter, List.mem_append] at h
    rcases h with h | h
    · split at h
      · rw [List.mem_singleton] at h
        split at h <;> subst h <;> exact settled_of_not_has (by decide +kernel)
      · exact settled_of_mem_lowerChar h
    · exact ih h

/-- Every character that lower-casing produces is one that it leaves as it is. -/
theorem settled_of_mem_lower (h : d ∈ lower text) : Settled d := settled_of_mem_lowerAfter h

theorem lowerAfter_of_settled (h : ∀ c ∈ text, Settled c) (before : List Char) :
    lowerAfter before text = text := by
  induction text generalizing before with
  | nil => rfl
  | cons c rest ih =>
    rw [h c List.mem_cons_self before rest, ih fun d hd => h d (List.mem_cons_of_mem _ hd)]

theorem lower_of_settled (h : ∀ c ∈ text, Settled c) : lower text = text :=
  lowerAfter_of_settled h []

theorem Settled.not_isCapital (h : Settled c) : ¬isCapital c := by
  intro hcapital
  have hchar := h [] []
  have hrange := isCapital_iff.1 hcapital
  have hsigma : c ≠ 'Σ' := by
    rintro rfl
    simp [isCapital] at hcapital
  rw [lowerAfter, lowerAfter, if_neg hsigma, lowerChar, if_pos (by omega), if_pos hcapital] at hchar
  have hcode := congrArg Char.toNat (List.head_eq_of_cons_eq hchar)
  rcases toNat_ofNat (c.toNat + 32) with hnext | hzero
  · omega
  · omega

end SettingsTree.Text
