import SettingsTree.Decimal.Double
import SettingsTree.Json.Value
import SettingsTree.Text.Basic

/-! # Numbers in documents

How a number is written, and which number a text denotes. A double is written with the fewest digits
that identify it, positionally from `0.00001` up to sixteen places before the point, and otherwise
with an exponent. Reading a double collects as many digits as fit sixty-four bits and scales the
collected integer, rounded to a double, by a power of ten that is itself rounded to a double.
-/

namespace SettingsTree

namespace Number

open Text Decimal

/-- The layout of doubles: the exponents of the leading digit that are written positionally, first
and last. -/
def positional : Int × Int := (-5, 15)

/-- The digits of a decimal with the point after the first `places` of them. -/
def pointed (digits : List Char) (places : Int) : List Char :=
  if places ≤ 0 then '0' :: '.' :: (List.replicate (-places).toNat '0' ++ digits)
  else if digits.length ≤ places then
    digits ++ List.replicate (places.toNat - digits.length) '0' ++ ['.', '0']
  else digits.take places.toNat ++ '.' :: digits.drop places.toNat

/-- The digits of a decimal with an exponent for the leading one. A positive exponent has a sign. -/
def withExponent (digits : List Char) (exponent : Int) : List Char :=
  let front := match digits with
    | first :: second :: rest => first :: '.' :: second :: rest
    | short => short
  front ++ 'e' :: (if 0 ≤ exponent then '+' else '-') :: Nat.toDigits 10 exponent.natAbs

def magnitudeChars (x : Double) : List Char :=
  if x.magnitude = 0 then ['0', '.', '0']
  else
    let d := shortest x
    let digits := Nat.toDigits 10 d.digits
    let exponent := d.exponent + digits.length - 1
    if positional.1 ≤ exponent && exponent ≤ positional.2 then pointed digits (exponent + 1)
    else withExponent digits exponent

def chars : Number → List Char
  | .int value =>
    let digits := Nat.toDigits 10 value.natAbs
    if value < 0 then '-' :: digits else digits
  | .double x => if x.isNegative then '-' :: magnitudeChars x else magnitudeChars x

/-- Collect digits into `total` while it stays below `2 ^ 64`; also how many were collected, and how
many were left over from the first that did not fit. -/
def collect (total : Nat) : List Char → Nat × Nat × Nat
  | [] => (total, 0, 0)
  | c :: rest =>
    let next := total * 10 + (c.toNat - '0'.toNat)
    if next < 0x10000000000000000 then
      let found := collect next rest
      (found.1, found.2.1 + 1, found.2.2)
    else (total, 0, rest.length + 1)

/-- The magnitude of `significand * 10 ^ exponent`, unless it is out of range. The greatest power of
ten that is a double is `10 ^ 308`; two divisions by it leave nothing of any significand. -/
def scaleMagnitude? (significand : Nat) (exponent : Int) : Option Nat :=
  let start := Double.magnitudeOfNat significand
  if start = 0 then some 0
  else if 308 < exponent then none
  else if 0 ≤ exponent then
    let scaled := Double.mulMagnitude start (Double.magnitudeOfNat (Nat.pow 10 exponent.toNat))
    if scaled < Double.infinity then some scaled else none
  else if -308 ≤ exponent then
    some (Double.divMagnitude start (Double.magnitudeOfNat (Nat.pow 10 (-exponent).toNat)))
  else if -616 ≤ exponent then
    some (Double.divMagnitude (Double.divMagnitude start (Double.magnitudeOfNat (Nat.pow 10 308)))
      (Double.magnitudeOfNat (Nat.pow 10 (-exponent - 308).toNat)))
  else some 0

/-- The parts of a written number: sign, integer digits, digits after the point, exponent. -/
structure Parts where
  negative : Bool
  whole : List Char
  fraction : Option (List Char)
  exponent : Option Int

def digitsValue (digits : List Char) : Nat :=
  digits.foldl (fun total c => total * 10 + (c.toNat - '0'.toNat)) 0

/-- Read an exponent with its sign; at least one digit is needed. -/
def readExponent? (text : List Char) : Option Int :=
  let signed := match text with
    | '+' :: rest => (false, rest)
    | '-' :: rest => (true, rest)
    | rest => (false, rest)
  if signed.2 = [] || !signed.2.all isDigit then none
  else some (if signed.1 then -(digitsValue signed.2 : Int) else digitsValue signed.2)

def readTail? (parts : Parts) : List Char → Option Parts
  | [] => some parts
  | c :: rest =>
    if c = 'e' || c = 'E' then
      (readExponent? rest).map fun exponent => { parts with exponent := some exponent }
    else none

/-- Take a written number apart. A leading zero stands alone, and digits surround a point. -/
def split? (text : List Char) : Option Parts :=
  let signed := match text with
    | '-' :: rest => (true, rest)
    | rest => (false, rest)
  let whole := signed.2.takeWhile isDigit
  let rest := signed.2.dropWhile isDigit
  if whole = [] || (whole.head? = some '0' && 1 < whole.length) then none
  else match rest with
    | '.' :: after =>
      let fraction := after.takeWhile isDigit
      if fraction = [] then none
      else readTail? ⟨signed.1, whole, some fraction, none⟩ (after.dropWhile isDigit)
    | _ => readTail? ⟨signed.1, whole, none, none⟩ rest

def readDouble? (parts : Parts) : Option Number :=
  let whole := collect 0 parts.whole
  let both := collect whole.1 (parts.fraction.getD [])
  let exponent := (whole.2.2 : Int) - both.2.1 + parts.exponent.getD 0
  (scaleMagnitude? both.1 exponent).map fun magnitude =>
    .double (Double.ofMagnitude parts.negative magnitude)

/-- The number that the parts of a written number denote, if it is in range. An integer that fits is
exact; a negative zero is a double. -/
def ofParts? (parts : Parts) : Option Number :=
  let value := digitsValue parts.whole
  if parts.fraction = none && parts.exponent = none then
    if parts.negative then
      if 0 < value && value ≤ 0x8000000000000000 then some (.int (-(value : Int)))
      else readDouble? parts
    else if value < 0x10000000000000000 then some (.int value) else readDouble? parts
  else readDouble? parts

end Number

end SettingsTree
