import SettingsTree.Text.Basic

/-! # Writing TOML

A text is written in the plainest form that shows it without escapes: on one line between quotes,
else on one line between apostrophes, else on several lines between three quotes, else on several
lines between three apostrophes. If none of these shows it, it is written with escapes.
-/

namespace SettingsTree.Toml

open Text

/-- The greatest number of adjacent occurrences of `c`, when `now` of them end right before the
text. -/
def longestRun (c : Char) (now : Nat) : List Char → Nat
  | [] => now
  | d :: rest => if d = c then longestRun c (now + 1) rest else max now (longestRun c 0 rest)

/-- Whether `c` can only be written as an escape. -/
def isControl (c : Char) : Bool :=
  (c.toNat < 0x20 && c ≠ '\t' && c ≠ '\n') || c.toNat = 0x7F

def escapeChar (c : Char) : List Char :=
  match c with
  | '\x08' => ['\\', 'b']
  | '\t' => ['\\', 't']
  | '\n' => ['\\', 'n']
  | '\x0c' => ['\\', 'f']
  | '\r' => ['\\', 'r']
  | '"' => ['\\', '"']
  | '\\' => ['\\', '\\']
  | c =>
    if isControl c then
      '\\' :: 'u' :: (hexDigits 4 c.toNat).map fun d =>
        if isSmall d then Char.ofNat (d.toNat - 32) else d
    else [c]

/-- Lines between three quotes; `quotes` quotes stand right before the text. The third of adjacent
quotes is escaped. -/
def escapeLines (quotes : Nat) : List Char → List Char
  | [] => []
  | '\n' :: rest => '\n' :: escapeLines 0 rest
  | '"' :: rest =>
    if quotes < 2 then '"' :: escapeLines (quotes + 1) rest
    else '\\' :: '"' :: escapeLines 0 rest
  | c :: rest => escapeChar c ++ escapeLines 0 rest

def textChars (text : List Char) : List Char :=
  let controls := text.any isControl
  let backslash := text.contains '\\'
  let breaks := text.contains '\n'
  let quotes := longestRun '"' 0 text
  let apostrophes := longestRun '\'' 0 text
  let start := if breaks then ['\n'] else []
  let basic := '"' :: text.flatMap escapeChar ++ ['"']
  let basicLines := ['"', '"', '"'] ++ start ++ escapeLines 0 text ++ ['"', '"', '"']
  if !controls && !backslash && quotes = 0 && !breaks then basic
  else if !controls && apostrophes = 0 && !breaks then '\'' :: text ++ ['\'']
  else if !controls && !backslash && quotes ≤ 2 then basicLines
  else if !controls && apostrophes ≤ 2 then
    ['\'', '\'', '\''] ++ start ++ text ++ ['\'', '\'', '\'']
  else if breaks then basicLines
  else basic

def writeText (text : String) : String := String.ofList (textChars text.toList)

/-- A list of texts, written: from two items on, every item has a line of its own. -/
def writeTexts : List String → String
  | [] => "[]"
  | [text] => "[" ++ writeText text ++ "]"
  | texts => "[\n" ++ String.join (texts.map fun text => "    " ++ writeText text ++ ",\n") ++ "]"

def writeLine (key value : String) : String := key ++ " = " ++ value ++ "\n"

end SettingsTree.Toml
