import Mathlib.Data.List.TakeWhile
import SettingsTree.Json.Printer
import SettingsTree.Json.Reader

/-! # Written strings and numbers

A written string shows where it ends, and a written number ends at the first character that cannot
belong to it. So each of them is recovered from any text that starts with it. An integer is never
written like a double: what is written for a double has a point or an exponent.
-/

namespace SettingsTree

open Text

namespace Json

/-! ### Strings -/

def unitValue? (digits : List Char) : Option Nat :=
  digits.foldlM (fun n c => (hexValue? c).map (16 * n + ·)) 0

/-- The first character of a string that is written without its opening quotation mark, and what
follows; none at the end of the string. -/
def firstEscaped? : List Char → Option (Char × List Char)
  | '\\' :: 'u' :: rest => (unitValue? (rest.take 4)).map fun n => (Char.ofNat n, rest.drop 4)
  | '\\' :: c :: rest => (Draft.escaped? c).map (·, rest)
  | '"' :: _ => none
  | c :: rest => some (c, rest)
  | [] => none

theorem unitValue?_hexDigits :
    ∀ n < 32, (hexDigits 4 n).length = 4 ∧ unitValue? (hexDigits 4 n) = some n := by
  decide

theorem escapeChar_cases (c : Char) :
    (escapeChar c = [c] ∧ c ≠ '"' ∧ c ≠ '\\' ∧ ¬c.toNat < 32) ∨
      (∃ d, escapeChar c = ['\\', d] ∧ d ≠ 'u' ∧ Draft.escaped? d = some c) ∨
      (escapeChar c = '\\' :: 'u' :: hexDigits 4 c.toNat ∧ c.toNat < 32) := by
  unfold escapeChar
  split
  case h_8 hquote hslash _ _ _ _ _ =>
    split
    · next hcontrol => exact Or.inr (Or.inr ⟨rfl, hcontrol⟩)
    · next hplain => exact Or.inl ⟨rfl, hquote, hslash, hplain⟩
  all_goals exact Or.inr (Or.inl ⟨_, rfl, by decide, rfl⟩)

theorem firstEscaped?_escapeChar (c : Char) (rest : List Char) :
    firstEscaped? (escapeChar c ++ rest) = some (c, rest) := by
  rcases escapeChar_cases c with ⟨hc, hquote, hslash, -⟩ | ⟨d, hc, hd, hescaped⟩ | ⟨hc, hcontrol⟩
  · rw [hc, List.singleton_append, firstEscaped?]
    · intro _ h
      exact absurd h hslash
    · intro _ _ h
      exact absurd h hslash
    · exact hquote
  · rw [hc, List.cons_append, List.singleton_append, firstEscaped?, hescaped]
    · rfl
    · exact hd
  · obtain ⟨hlength, hvalue⟩ := unitValue?_hexDigits c.toNat hcontrol
    rw [hc, List.cons_append, List.cons_append, firstEscaped?, List.take_left' hlength,
      List.drop_left' hlength, hvalue]
    simp

theorem escaped_append_inj {a b r s : List Char}
    (h : a.flatMap escapeChar ++ '"' :: r = b.flatMap escapeChar ++ '"' :: s) : a = b ∧ r = s := by
  induction a generalizing b with
  | nil =>
    cases b with
    | nil => simpa using h
    | cons d b =>
      have hfirst := congrArg firstEscaped? h
      rw [List.flatMap_cons, List.append_assoc, firstEscaped?_escapeChar] at hfirst
      simp [firstEscaped?] at hfirst
  | cons c a ih =>
    have hfirst := congrArg firstEscaped? h
    rw [List.flatMap_cons, List.append_assoc, firstEscaped?_escapeChar] at hfirst
    cases b with
    | nil => simp [firstEscaped?] at hfirst
    | cons d b =>
      rw [List.flatMap_cons, List.append_assoc, firstEscaped?_escapeChar, Option.some.injEq,
        Prod.mk.injEq] at hfirst
      obtain ⟨rfl, hrest⟩ := hfirst
      obtain ⟨rfl, rfl⟩ := ih hrest
      exact ⟨rfl, rfl⟩

theorem stringChars_append_inj {a b : String} {r s : List Char}
    (h : stringChars a ++ r = stringChars b ++ s) : a = b ∧ r = s := by
  simp only [stringChars, List.cons_append, List.append_assoc, List.nil_append, List.cons.injEq,
    true_and] at h
  obtain ⟨hlist, rfl⟩ := escaped_append_inj h
  exact ⟨String.toList_injective hlist, rfl⟩

end Json

/-! ### Numbers -/

namespace Number

open Draft Decimal

theorem isDigit_of_mem_toDigits {n : Nat} {c : Char} (h : c ∈ Nat.toDigits 10 n) :
    isDigit c = true := by
  have hdigit := Nat.isDigit_of_mem_toDigits (by decide) (by decide) h
  simpa [isDigit, Char.isDigit, Char.le_def] using hdigit

theorem isNumberChar_of_isDigit {c : Char} (h : isDigit c = true) : isNumberChar c = true := by
  simp [isNumberChar, h]

variable {digits : List Char} {c : Char}

theorem isNumberChar_of_mem_pointed (h : ∀ d ∈ digits, isNumberChar d = true) {places : Int}
    (hc : c ∈ pointed digits places) : isNumberChar c = true := by
  have hzero : isNumberChar '0' = true := by decide
  have hpoint : isNumberChar '.' = true := by decide
  unfold pointed at hc
  split at hc
  · simp only [List.mem_cons, List.mem_append, List.mem_replicate] at hc
    rcases hc with rfl | rfl | ⟨-, rfl⟩ | hc
    · exact hzero
    · exact hpoint
    · exact hzero
    · exact h c hc
  · split at hc
    · simp only [List.mem_cons, List.mem_append, List.mem_replicate, List.not_mem_nil,
        or_false] at hc
      rcases hc with (hc | ⟨-, rfl⟩) | rfl | rfl
      · exact h c hc
      · exact hzero
      · exact hpoint
      · exact hzero
    · simp only [List.mem_cons, List.mem_append] at hc
      rcases hc with hc | rfl | hc
      · exact h c (List.mem_of_mem_take hc)
      · exact hpoint
      · exact h c (List.mem_of_mem_drop hc)

theorem point_mem_pointed (digits : List Char) (places : Int) : '.' ∈ pointed digits places := by
  unfold pointed
  split
  · simp
  · split <;> simp

theorem isNumberChar_of_mem_withExponent (h : ∀ d ∈ digits, isNumberChar d = true) {exponent : Int}
    (hc : c ∈ withExponent digits exponent) : isNumberChar c = true := by
  unfold withExponent at hc
  rcases List.mem_append.1 hc with hc | hc
  · split at hc
    · simp only [List.mem_cons] at hc h
      rcases hc with rfl | rfl | hc
      · exact h _ (Or.inl rfl)
      · decide
      · exact h _ (Or.inr hc)
    · exact h c hc
  · simp only [List.mem_cons] at hc
    rcases hc with rfl | rfl | hc
    · decide
    · split <;> decide
    · exact isNumberChar_of_isDigit (isDigit_of_mem_toDigits hc)

theorem exponent_mem_withExponent (digits : List Char) (exponent : Int) :
    'e' ∈ withExponent digits exponent := by
  simp [withExponent]

theorem isNumberChar_of_mem_magnitudeChars {x : Double} (h : c ∈ magnitudeChars x) :
    isNumberChar c = true := by
  have hdigits : ∀ d ∈ Nat.toDigits 10 (shortest x).digits, isNumberChar d = true :=
    fun d hd => isNumberChar_of_isDigit (isDigit_of_mem_toDigits hd)
  unfold magnitudeChars at h
  split at h
  · simp only [List.mem_cons, List.not_mem_nil, or_false] at h
    rcases h with rfl | rfl | rfl <;> decide
  · dsimp only at h
    split at h
    · exact isNumberChar_of_mem_pointed hdigits h
    · exact isNumberChar_of_mem_withExponent hdigits h

/-- What is written for a double has a point or an exponent. -/
theorem exists_mem_magnitudeChars (x : Double) :
    ∃ c ∈ magnitudeChars x, c = '.' ∨ c = 'e' := by
  unfold magnitudeChars
  split
  · exact ⟨'.', by simp, Or.inl rfl⟩
  · dsimp only
    split
    · exact ⟨'.', point_mem_pointed _ _, Or.inl rfl⟩
    · exact ⟨'e', exponent_mem_withExponent _ _, Or.inr rfl⟩

theorem isNumberChar_of_mem_chars {n : Number} (h : c ∈ n.chars) : isNumberChar c = true := by
  have hsign : isNumberChar '-' = true := by decide
  cases n with
  | int value =>
    have hdigits : c ∈ Nat.toDigits 10 value.natAbs → isNumberChar c = true :=
      fun h => isNumberChar_of_isDigit (isDigit_of_mem_toDigits h)
    dsimp only [chars] at h
    split at h
    · rcases List.mem_cons.1 h with rfl | h
      · exact hsign
      · exact hdigits h
    · exact hdigits h
  | double x =>
    dsimp only [chars] at h
    split at h
    · rcases List.mem_cons.1 h with rfl | h
      · exact hsign
      · exact isNumberChar_of_mem_magnitudeChars h
    · exact isNumberChar_of_mem_magnitudeChars h

theorem chars_ne_nil (n : Number) : n.chars ≠ [] := by
  cases n with
  | int value =>
    dsimp only [chars]
    split
    · simp
    · exact Nat.toDigits_ne_nil
  | double x =>
    obtain ⟨c, hc, -⟩ := exists_mem_magnitudeChars x
    dsimp only [chars]
    split
    · simp
    · exact List.ne_nil_of_mem hc

theorem isDigit_head_pointed {rest : List Char} (h : isDigit c = true) (places : Int) :
    ∀ d ∈ (pointed (c :: rest) places).head?, isDigit d = true := by
  have hzero : isDigit '0' = true := by decide
  unfold pointed
  split
  · simpa using hzero
  · next hplaces =>
    split
    · simpa using h
    · obtain ⟨count, hcount⟩ := Nat.exists_eq_succ_of_ne_zero (n := places.toNat) (by omega)
      rw [hcount, List.take_succ_cons]
      simpa using h

theorem isDigit_head_withExponent {rest : List Char} (h : isDigit c = true) (exponent : Int) :
    ∀ d ∈ (withExponent (c :: rest) exponent).head?, isDigit d = true := by
  unfold withExponent
  cases rest <;> simpa using h

theorem isDigit_head_magnitudeChars (x : Double) :
    ∀ d ∈ (magnitudeChars x).head?, isDigit d = true := by
  obtain ⟨first, rest, hdigits⟩ :=
    List.exists_cons_of_ne_nil (Nat.toDigits_ne_nil (b := 10) (n := (shortest x).digits))
  have hfirst : isDigit first = true := isDigit_of_mem_toDigits (hdigits ▸ List.mem_cons_self)
  unfold magnitudeChars
  split
  · have hzero : isDigit '0' = true := by decide
    simpa using hzero
  · dsimp only
    rw [hdigits]
    split
    · exact isDigit_head_pointed hfirst _
    · exact isDigit_head_withExponent hfirst _

theorem head_chars (n : Number) : ∀ c ∈ n.chars.head?, isDigit c = true ∨ c = '-' := by
  cases n with
  | int value =>
    obtain ⟨first, rest, hdigits⟩ :=
      List.exists_cons_of_ne_nil (Nat.toDigits_ne_nil (b := 10) (n := value.natAbs))
    have hfirst : isDigit first = true := isDigit_of_mem_toDigits (hdigits ▸ List.mem_cons_self)
    dsimp only [chars]
    rw [hdigits]
    split <;> simp [hfirst]
  | double x =>
    dsimp only [chars]
    split
    · simp
    · exact fun c hc => Or.inl (isDigit_head_magnitudeChars x c hc)

/-- A number ends where a character follows that cannot belong to it. -/
theorem chars_append_inj {n m : Number} {r s : List Char}
    (hr : ∀ c ∈ r.head?, isNumberChar c = false) (hs : ∀ c ∈ s.head?, isNumberChar c = false)
    (h : n.chars ++ r = m.chars ++ s) : n.chars = m.chars ∧ r = s := by
  have htake {k : Number} {t : List Char} (ht : ∀ c ∈ t.head?, isNumberChar c = false) :
      (k.chars ++ t).takeWhile isNumberChar = k.chars := by
    rw [List.takeWhile_append_of_pos fun c hc => isNumberChar_of_mem_chars hc]
    cases t with
    | nil => simp
    | cons c t => simp [ht c rfl]
  have hchars : n.chars = m.chars := by
    calc
      n.chars = (n.chars ++ r).takeWhile isNumberChar := (htake hr).symm
      _ = (m.chars ++ s).takeWhile isNumberChar := by rw [h]
      _ = m.chars := htake hs
  rw [hchars, List.append_cancel_left_eq] at h
  exact ⟨hchars, h⟩

theorem toDigits_injective : Function.Injective (Nat.toDigits 10) := by
  intro a b h
  rw [← Nat.ofDigitChars_ten_toDigits (n := a), h, Nat.ofDigitChars_ten_toDigits]

theorem sign_not_mem_toDigits (n : Nat) : '-' ∉ Nat.toDigits 10 n :=
  fun h => absurd (isDigit_of_mem_toDigits h) (by decide)

theorem int_chars_injective {a b : Int} (h : (int a).chars = (int b).chars) : a = b := by
  have hne {n : Nat} {l : List Char} (h : Nat.toDigits 10 n = '-' :: l) : False :=
    sign_not_mem_toDigits n (h ▸ List.mem_cons_self)
  dsimp only [chars] at h
  split at h <;> split at h
  · have habs := toDigits_injective (List.cons.inj h).2
    omega
  · exact (hne h.symm).elim
  · exact (hne h).elim
  · have habs := toDigits_injective h
    omega

theorem int_chars_ne_double_chars (a : Int) (x : Double) : (int a).chars ≠ (double x).chars := by
  intro h
  obtain ⟨c, hc, hmark⟩ := exists_mem_magnitudeChars x
  have hmem : c ∈ (double x).chars := by
    dsimp only [chars]
    split
    · exact List.mem_cons_of_mem _ hc
    · exact hc
  rw [← h] at hmem
  dsimp only [chars] at hmem
  have hdigits : c ∉ Nat.toDigits 10 a.natAbs := by
    intro hdigit
    have := isDigit_of_mem_toDigits hdigit
    rcases hmark with rfl | rfl <;> simp [isDigit] at this
  split at hmem
  · rcases List.mem_cons.1 hmem with rfl | hmem
    · simp at hmark
    · exact hdigits hmem
  · exact hdigits hmem

/-- Doubles of different signs are not written alike, not even the two zeros. -/
theorem double_chars_ne_of_sign {x y : Double} (h : x.isNegative ≠ y.isNegative) :
    (double x).chars ≠ (double y).chars := by
  have hne (x y : Double) : '-' :: magnitudeChars x ≠ magnitudeChars y := by
    intro heq
    exact absurd (isDigit_head_magnitudeChars y '-' (by rw [← heq]; rfl)) (by decide)
  dsimp only [chars]
  cases hx : x.isNegative with
  | false =>
    have hy : y.isNegative = true := by simpa [hx] using h.symm
    simpa [hy] using (hne y x).symm
  | true =>
    have hy : y.isNegative = false := by simpa [hx] using h.symm
    simpa [hy] using hne x y

end Number

end SettingsTree
