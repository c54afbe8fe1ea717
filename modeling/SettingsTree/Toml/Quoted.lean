import SettingsTree.Text.Basic

/-! # Quoted texts of TOML

A text stands between quotes, with escapes, or between apostrophes, without. Three quotes or
apostrophes enclose a text of several lines: a line break right after them is dropped, and one or
two more of them may stand at the end of the text. A backslash at the end of a line drops the break
and all blanks after it.
-/

namespace SettingsTree.Toml

open Text

/-- Whether `c` may stand for itself on a line. -/
def isPlain (c : Char) : Bool := c = '\t' || (0x20 ≤ c.toNat && c.toNat ≠ 0x7F)

def isBlank (c : Char) : Bool := c = ' ' || c = '\t'

def escaped? (c : Char) : Option Char :=
  match c with
  | 'b' => some '\x08'
  | 't' => some '\t'
  | 'n' => some '\n'
  | 'f' => some '\x0c'
  | 'r' => some '\r'
  | '"' => some '"'
  | '\\' => some '\\'
  | _ => none

def codePoint? (digits : List Char) : Option Char := do
  let values ← digits.mapM hexValue?
  let value := values.foldl (fun n d => n * 16 + d) 0
  if value < 0xD800 || (0xE000 ≤ value && value ≤ 0x10FFFF) then some (Char.ofNat value) else none

/-- The text up to the closing quote, and what follows. `read` holds what was read, last character
first. -/
def basic (read : List Char) : List Char → Option (String × List Char)
  | '"' :: rest => some (String.ofList read.reverse, rest)
  | '\\' :: 'u' :: a :: b :: c :: d :: rest =>
    (codePoint? [a, b, c, d]).bind fun e => basic (e :: read) rest
  | '\\' :: 'U' :: a :: b :: c :: d :: e :: f :: g :: h :: rest =>
    (codePoint? [a, b, c, d, e, f, g, h]).bind fun i => basic (i :: read) rest
  | '\\' :: c :: rest => (escaped? c).bind fun d => basic (d :: read) rest
  | c :: rest => if isPlain c && c ≠ '\\' then basic (c :: read) rest else none
  | [] => none

def literal (read : List Char) : List Char → Option (String × List Char)
  | '\'' :: rest => some (String.ofList read.reverse, rest)
  | c :: rest => if isPlain c then literal (c :: read) rest else none
  | [] => none

def dropBreak : List Char → List Char
  | '\n' :: rest => rest
  | '\r' :: '\n' :: rest => rest
  | text => text

/-- Whether nothing but blanks stands before the next line break. -/
def blankToBreak : List Char → Bool
  | '\n' :: _ => true
  | '\r' :: '\n' :: _ => true
  | c :: rest => isBlank c && blankToBreak rest
  | [] => false

/-- The lines up to three closing quotes, and what follows. While `skip` holds, blanks and line
breaks are dropped. -/
def basicLines (read : List Char) (skip : Bool) : List Char → Option (String × List Char)
  | '"' :: '"' :: '"' :: '"' :: '"' :: rest =>
    some (String.ofList ('"' :: '"' :: read).reverse, rest)
  | '"' :: '"' :: '"' :: '"' :: rest => some (String.ofList ('"' :: read).reverse, rest)
  | '"' :: '"' :: '"' :: rest => some (String.ofList read.reverse, rest)
  | '\r' :: '\n' :: rest =>
    if skip then basicLines read true rest else basicLines ('\n' :: read) false rest
  | '\n' :: rest =>
    if skip then basicLines read true rest else basicLines ('\n' :: read) false rest
  | '\\' :: 'u' :: a :: b :: c :: d :: rest =>
    (codePoint? [a, b, c, d]).bind fun e => basicLines (e :: read) false rest
  | '\\' :: 'U' :: a :: b :: c :: d :: e :: f :: g :: h :: rest =>
    (codePoint? [a, b, c, d, e, f, g, h]).bind fun i => basicLines (i :: read) false rest
  | '\\' :: c :: rest =>
    match escaped? c with
    | some d => basicLines (d :: read) false rest
    | none => if blankToBreak (c :: rest) then basicLines read true (c :: rest) else none
  | c :: rest =>
    if skip && isBlank c then basicLines read true rest
    else if isPlain c && c ≠ '\\' then basicLines (c :: read) false rest
    else none
  | [] => none

def literalLines (read : List Char) : List Char → Option (String × List Char)
  | '\'' :: '\'' :: '\'' :: '\'' :: '\'' :: rest =>
    some (String.ofList ('\'' :: '\'' :: read).reverse, rest)
  | '\'' :: '\'' :: '\'' :: '\'' :: rest => some (String.ofList ('\'' :: read).reverse, rest)
  | '\'' :: '\'' :: '\'' :: rest => some (String.ofList read.reverse, rest)
  | '\r' :: '\n' :: rest => literalLines ('\n' :: read) rest
  | '\n' :: rest => literalLines ('\n' :: read) rest
  | c :: rest => if isPlain c then literalLines (c :: read) rest else none
  | [] => none

def quoted? : List Char → Option (String × List Char)
  | '"' :: '"' :: '"' :: rest => basicLines [] false (dropBreak rest)
  | '"' :: rest => basic [] rest
  | '\'' :: '\'' :: '\'' :: rest => literalLines [] (dropBreak rest)
  | '\'' :: rest => literal [] rest
  | _ => none

end SettingsTree.Toml
