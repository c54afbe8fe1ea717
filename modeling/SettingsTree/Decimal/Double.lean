/-! # Double-precision numbers

A finite double is a natural number times a power of two, with a sign. Values are rounded to the
nearest double, halfway cases to the one whose last bit is zero. All arithmetic is exact arithmetic
on naturals followed by one rounding.

The decimals that are nearer to a double than to any other form an interval around it. Of the
decimals in the interval those with the fewest digits are considered, and of these the one nearest
to the double; a tie goes to the even digit.
-/

namespace SettingsTree

/-- A double, given by its sixty-four bits: sign, eleven bits of exponent, fifty-two of fraction. -/
structure Double where
  bits : UInt64
  deriving DecidableEq, Repr, Inhabited

namespace Double

def signBit : Nat := 0x8000000000000000

/-- The first bit of a mantissa, which is not stored. The fraction bits stay below it. -/
def hiddenBit : Nat := 0x10000000000000

def isNegative (x : Double) : Bool := signBit ≤ x.bits.toNat

/-- The bits without the sign. They order the magnitudes. -/
def magnitude (x : Double) : Nat := x.bits.toNat % signBit

def fraction (x : Double) : Nat := x.magnitude % hiddenBit

def exponent (x : Double) : Nat := x.magnitude / hiddenBit

/-- Neither infinite nor undefined. -/
def isFinite (x : Double) : Bool := x.exponent < 2047

/-- The natural factor of a finite magnitude. -/
def mantissa (x : Double) : Nat := if x.exponent = 0 then x.fraction else hiddenBit + x.fraction

/-- The power of two that belongs to the mantissa. -/
def scale (x : Double) : Int := (if x.exponent = 0 then 1 else (x.exponent : Int)) - 1075

/-- Whether the next smaller magnitude is only half as far away as the next greater one. -/
def narrowBelow (x : Double) : Bool := x.fraction = 0 && 1 < x.exponent

def ofMagnitude (negative : Bool) (magnitude : Nat) : Double :=
  ⟨UInt64.ofNat (if negative then signBit + magnitude else magnitude)⟩

def infinity : Nat := 2047 * hiddenBit

/-- `num / den` rounded to a natural, halfway cases to the even neighbour. -/
def roundQuotient (num den : Nat) : Nat :=
  let low := num / den
  let twice := 2 * (num % den)
  if twice < den then low else if den < twice then low + 1 else low + low % 2

/-- `num / den` times a power of two, as a quotient of naturals. -/
def shifted (num den : Nat) (power : Int) : Nat × Nat :=
  (num * Nat.pow 2 power.toNat, den * Nat.pow 2 (-power).toNat)

/-- The magnitude of the double nearest to `num / den`; `den` is not zero. The unit in the last
place is chosen so that the mantissa has fifty-three bits, but never below the least double. -/
def magnitudeOfQuotient (num den : Nat) : Nat :=
  if num = 0 then 0
  else
    let guess : Int := (Nat.log2 num : Int) - Nat.log2 den
    let scaled := shifted num den (-guess)
    let top := if scaled.1 < scaled.2 then guess - 1 else guess
    let unit := max (top - 52) (-1074)
    let parts := shifted num den (-unit)
    min infinity ((unit + 1074).toNat * hiddenBit + roundQuotient parts.1 parts.2)

def magnitudeOfNat (n : Nat) : Nat := magnitudeOfQuotient n 1

/-- The magnitude nearest to `digits * 10 ^ exponent`. Far outside the range of doubles no power of
ten is computed. -/
def magnitudeOfDecimal (digits : Nat) (exponent : Int) : Nat :=
  let places : Int := (Nat.toDigits 10 digits).length + exponent
  if digits = 0 || places < -330 then 0
  else if 310 < places then infinity
  else magnitudeOfQuotient (digits * Nat.pow 10 exponent.toNat) (Nat.pow 10 (-exponent).toNat)

def mulMagnitude (x y : Nat) : Nat :=
  let a := ofMagnitude false x
  let b := ofMagnitude false y
  let parts := shifted (a.mantissa * b.mantissa) 1 (a.scale + b.scale)
  magnitudeOfQuotient parts.1 parts.2

/-- The magnitude nearest to the quotient of two finite ones; the second is not zero. -/
def divMagnitude (x y : Nat) : Nat :=
  let a := ofMagnitude false x
  let b := ofMagnitude false y
  let parts := shifted a.mantissa b.mantissa (a.scale - b.scale)
  magnitudeOfQuotient parts.1 parts.2

/-- Equality of numbers: the two zeros are one number. -/
def sameNumber (x y : Double) : Bool := x = y || (x.magnitude = 0 && y.magnitude = 0)

end Double

/-! ### Shortest decimals -/

namespace Decimal

open Double (shifted)

/-- `digits * 10 ^ exponent`. -/
structure Scientific where
  digits : Nat
  exponent : Int
  deriving DecidableEq, Repr

/-- Compare `a * 10 ^ i` with `n * 2 ^ j`. -/
def compareScaled (a : Nat) (i : Int) (n : Nat) (j : Int) : Ordering :=
  compare (a * Nat.pow 10 i.toNat * Nat.pow 2 (-j).toNat)
    (n * Nat.pow 2 j.toNat * Nat.pow 10 (-i).toNat)

/-- Whether the decimal is among the reals that round to the double. Both ends of the interval
belong to it exactly when the mantissa is even. -/
def readsBack (x : Double) (d : Scientific) : Bool :=
  let low := if x.narrowBelow then 4 * x.mantissa - 1 else 4 * x.mantissa - 2
  let high := 4 * x.mantissa + 2
  let closed := x.mantissa % 2 = 0
  let below := compareScaled d.digits d.exponent low (x.scale - 2)
  let above := compareScaled d.digits d.exponent high (x.scale - 2)
  (below = .gt || (closed && below = .eq)) && (above = .lt || (closed && above = .eq))

/-- The least `k` such that a non-zero double lies below `10 ^ k`. A third of the binary exponent
is within two of it. -/
def order (x : Double) : Int :=
  let guess := ((Nat.log2 x.mantissa : Int) + x.scale) * 1233 / 4096
  if compareScaled 1 guess x.mantissa x.scale = .gt then guess
  else if compareScaled 1 (guess + 1) x.mantissa x.scale = .gt then guess + 1
  else guess + 2

/-- The best decimal on the grid of multiples of `10 ^ grid`, if the interval meets the grid. -/
def onGrid? (x : Double) (grid : Int) : Option Scientific :=
  let parts := shifted (x.mantissa * Nat.pow 10 (-grid).toNat) (Nat.pow 10 grid.toNat) x.scale
  let low := parts.1 / parts.2
  let twice := 2 * (parts.1 % parts.2)
  let lower : Scientific := ⟨low, grid⟩
  let upper : Scientific := ⟨low + 1, grid⟩
  match readsBack x lower, readsBack x upper with
  | true, true =>
    if twice < parts.2 || (twice = parts.2 && low % 2 = 0) then some lower else some upper
  | true, false => some lower
  | false, true => some upper
  | false, false => none

/-- Move the zeros at the end of the digits into the exponent, at most `count` of them. -/
def strip : (count : Nat) → Scientific → Scientific
  | 0, d => d
  | count + 1, d =>
    if d.digits ≠ 0 && d.digits % 10 = 0 then strip count ⟨d.digits / 10, d.exponent + 1⟩ else d

def exact (x : Double) : Scientific :=
  ⟨x.mantissa * Nat.pow 2 x.scale.toNat * Nat.pow 5 (-x.scale).toNat, min x.scale 0⟩

/-- The shortest decimal of a finite double other than zero. -/
def shortest (x : Double) : Scientific :=
  let top := order x
  match (List.range 17).findSome? fun count => onGrid? x (top - (count + 1 : Nat)) with
  | some d => strip 17 d
  | none => exact x

end Decimal

end SettingsTree
