import SettingsTree.Json.Numeral
import SettingsTree.Text.Basic

/-! # Numbers, truth values and times of TOML

These are recognised and otherwise left as they are written.
-/

namespace SettingsTree.Toml

open Text

/-- Digits of a class with single underscores between them, without the underscores. -/
def digits? (isDigit : Char → Bool) : List Char → Option (List Char)
  | [] => none
  | [c] => if isDigit c then some [c] else none
  | c :: '_' :: rest => if isDigit c then (digits? isDigit rest).map (c :: ·) else none
  | c :: rest => if isDigit c then (digits? isDigit rest).map (c :: ·) else none

/-- The text without a sign, and whether the sign was a minus. -/
def unsigned : List Char → Bool × List Char
  | '+' :: rest => (false, rest)
  | '-' :: rest => (true, rest)
  | rest => (false, rest)

/-- The digits of a decimal integer without its sign. A leading zero stands alone. -/
def decimal? (text : List Char) : Option (List Char) :=
  match text with
  | ['0'] => some ['0']
  | '0' :: _ => none
  | _ => digits? isDigit text

/-- Whether a magnitude fits an integer of sixty-four bits with the given sign. -/
def fits (negative : Bool) (magnitude : Nat) : Bool :=
  magnitude < 0x8000000000000000 || (negative && magnitude = 0x8000000000000000)

def isBased (base : Nat) (text : List Char) : Bool :=
  match digits? (fun c => (hexValue? c).any fun value => value < base) text with
  | some digits => fits false (digits.foldl (fun n c => n * base + (hexValue? c).getD 0) 0)
  | none => false

def isInteger (text : List Char) : Bool :=
  match text with
  | '0' :: 'x' :: rest => isBased 16 rest
  | '0' :: 'o' :: rest => isBased 8 rest
  | '0' :: 'b' :: rest => isBased 2 rest
  | _ =>
    let (negative, rest) := unsigned text
    match decimal? rest with
    | some digits => fits negative (Number.digitsValue digits)
    | none => false

def exponent? (text : List Char) : Option Int :=
  let (negative, rest) := unsigned text
  (digits? isDigit rest).map fun digits =>
    let value : Int := Number.digitsValue digits
    if negative then -value else value

/-- A text up to the mark of an exponent, and what follows the mark. -/
def cutExponent (text : List Char) : List Char × Option (List Char) :=
  match cutFirst 'e' (text.map fun c => if c = 'E' then 'e' else c) with
  | some (front, behind) => (front, some behind)
  | none => (text, none)

/-- The parts of a float with a point or an exponent. -/
def floatParts? (text : List Char) : Option Number.Parts := do
  let (negative, rest) := unsigned text
  let (front, power) := cutExponent rest
  let exponent ← match power with
    | some power => (exponent? power).map some
    | none => some none
  match cutFirst '.' front with
  | some (whole, fraction) =>
    return ⟨negative, ← decimal? whole, some (← digits? isDigit fraction), exponent⟩
  | none => if exponent.isNone then none else return ⟨negative, ← decimal? front, none, exponent⟩

def floatMagnitude (parts : Number.Parts) : Nat :=
  let fraction := parts.fraction.getD []
  Double.magnitudeOfDecimal (Number.digitsValue (parts.whole ++ fraction))
    (parts.exponent.getD 0 - fraction.length)

/-- Whether a text is a float. One that is nearest to positive infinity is none. -/
def isFloat (text : List Char) : Bool :=
  let special := (unsigned text).2
  if special = ['i', 'n', 'f'] || special = ['n', 'a', 'n'] then true
  else match floatParts? text with
    | some parts => parts.negative || floatMagnitude parts < Double.infinity
    | none => false

/-- A number of exactly `count` digits between two bounds. -/
def fixed? (count low high : Nat) (text : List Char) : Option Nat :=
  if text.length = count && text.all isDigit then
    let value := Number.digitsValue text
    if low ≤ value && value ≤ high then some value else none
  else none

def daysOf (year month : Nat) : Nat :=
  if month = 2 then
    if year % 4 = 0 && (year % 100 ≠ 0 || year % 400 = 0) then 29 else 28
  else if month = 4 || month = 6 || month = 9 || month = 11 then 30
  else 31

def isDate (text : List Char) : Bool :=
  match splitAll '-' text with
  | [year, month, day] =>
    match fixed? 4 0 9999 year, fixed? 2 1 12 month with
    | some year, some month => (fixed? 2 1 (daysOf year month) day).isSome
    | _, _ => false
  | _ => false

def isTime (text : List Char) : Bool :=
  match splitAll ':' text with
  | [hour, minute, second] =>
    let secondOk := match cutFirst '.' second with
      | some (whole, fraction) =>
        (fixed? 2 0 60 whole).isSome && fraction ≠ [] && fraction.all isDigit
      | none => (fixed? 2 0 60 second).isSome
    (fixed? 2 0 23 hour).isSome && (fixed? 2 0 59 minute).isSome && secondOk
  | _ => false

/-- Whether a text is a distance from universal time. -/
def isOffset (text : List Char) : Bool :=
  match splitAll ':' text with
  | [hour, minute] => (fixed? 2 0 23 hour).isSome && (fixed? 2 0 59 minute).isSome
  | _ => false

def isOffsetTime (text : List Char) : Bool :=
  match text.getLast? with
  | some 'Z' | some 'z' => isTime text.dropLast
  | _ =>
    let behind := text.dropWhile fun c => c ≠ '+' && c ≠ '-'
    match behind with
    | [] => isTime text
    | _ :: offset => isTime (text.take (text.length - behind.length)) && isOffset offset

/-- Whether a text is a date, a time, or both with a separator between them. -/
def isMoment (text : List Char) : Bool :=
  match text.drop 10 with
  | [] => isDate text || isTime text
  | c :: rest =>
    (isDate (text.take 10) && (c = 'T' || c = 't' || c = ' ') && isOffsetTime rest) || isTime text

/-- Whether a text is a scalar that is not a text. -/
def isScalar (text : List Char) : Bool :=
  text = ['t', 'r', 'u', 'e'] || text = ['f', 'a', 'l', 's', 'e'] ||
    isInteger text || isFloat text || isMoment text

end SettingsTree.Toml
