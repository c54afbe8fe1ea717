/-! # Characters and pieces of texts

Classes of ASCII characters, sets of characters given by ranges of code points, and texts that are
cut at a separator.
-/

namespace SettingsTree.Text

/-! ### Classes of characters -/

/-- `A` to `Z`. -/
def isCapital (c : Char) : Bool := 'A' ≤ c && c ≤ 'Z'

/-- `a` to `z`. -/
def isSmall (c : Char) : Bool := 'a' ≤ c && c ≤ 'z'

def isDigit (c : Char) : Bool := '0' ≤ c && c ≤ '9'

/-- The value of a hexadecimal digit in either case. -/
def hexValue? (c : Char) : Option Nat :=
  if isDigit c then some (c.toNat - '0'.toNat)
  else if 'a' ≤ c && c ≤ 'f' then some (c.toNat - 'a'.toNat + 10)
  else if 'A' ≤ c && c ≤ 'F' then some (c.toNat - 'A'.toNat + 10)
  else none

/-- The hexadecimal digits of `n` in small letters, at least `width` of them. -/
def hexDigits (width n : Nat) : List Char :=
  let digits := Nat.toDigits 16 n
  List.replicate (width - digits.length) '0' ++ digits

/-- A set of characters: first and last code point of each range. -/
abbrev Ranges := List (Nat × Nat)

def Ranges.contains (ranges : Ranges) (c : Char) : Bool :=
  List.any ranges fun range => range.1 ≤ c.toNat && c.toNat ≤ range.2

/-! ### Cutting at a separator -/

/-- The pieces between the occurrences of `separator`; one more than there are occurrences. -/
def splitAll (separator : Char) : List Char → List (List Char)
  | [] => [[]]
  | c :: rest =>
    if c = separator then [] :: splitAll separator rest
    else match splitAll separator rest with
      | [] => [[c]]
      | piece :: pieces => (c :: piece) :: pieces

/-- The parts before and after the first `separator`, if there is one. -/
def cutFirst (separator : Char) : List Char → Option (List Char × List Char)
  | [] => none
  | c :: rest =>
    if c = separator then some ([], rest)
    else (cutFirst separator rest).map fun parts => (c :: parts.1, parts.2)

def cutString (separator : Char) (text : String) : Option (String × String) :=
  (cutFirst separator text.toList).map fun parts => (String.ofList parts.1, String.ofList parts.2)

/-! ### Classes by code points -/

variable {c : Char}

theorem isCapital_iff : isCapital c ↔ 65 ≤ c.toNat ∧ c.toNat ≤ 90 := by
  rw [isCapital, Bool.and_eq_true, decide_eq_true_eq, decide_eq_true_eq]
  rfl

theorem isSmall_iff : isSmall c ↔ 97 ≤ c.toNat ∧ c.toNat ≤ 122 := by
  rw [isSmall, Bool.and_eq_true, decide_eq_true_eq, decide_eq_true_eq]
  rfl

theorem isDigit_iff : isDigit c ↔ 48 ≤ c.toNat ∧ c.toNat ≤ 57 := by
  rw [isDigit, Bool.and_eq_true, decide_eq_true_eq, decide_eq_true_eq]
  rfl

theorem not_isCapital (h : isSmall c || isDigit c) : ¬isCapital c := by
  rw [Bool.or_eq_true, isSmall_iff, isDigit_iff] at h
  rw [isCapital_iff]
  omega

end SettingsTree.Text
