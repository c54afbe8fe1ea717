import SettingsTree.Keyed
import SettingsTree.Toml.Quoted
import SettingsTree.Toml.Scalar

/-! # Reading TOML

A document fills nested tables. A header opens a table, once; a dotted key opens the tables before
its last part, and later keys of the same dotted form may add to them. A table that only a longer
header has mentioned can still get a header of its own. What is written as a value is complete.

A document is read line by line. Readers of nested values are bounded by the length of the text,
since every step of theirs but a bounded number takes a character. Values nest less than eighty
deep, and a key has less than eighty parts.
-/

namespace SettingsTree.Toml

open Text

/-! ### Tables -/

/-- What has opened a table. -/
inductive Opening where
  /-- A header of its own. -/
  | header
  /-- A longer header. -/
  | implied
  /-- A dotted key. -/
  | dotted
  /-- It is a value. -/
  | inline
  deriving DecidableEq, Repr

inductive Value where
  | text (text : String)
  /-- A number, a truth value or a time, as it is written. -/
  | scalar (written : String)
  | list (items : List Value)
  | table (opening : Opening) (entries : List (String × Value))
  /-- Tables under one repeated header, last one first. -/
  | tables (done : List (List (String × Value)))
  deriving Repr, Inhabited

/-- Add a value under a dotted key to a table; `opening` says what opened the table, if a part of
the key led to it. -/
def add (opening : Option Opening) (value : Value) :
    List String → Keyed Value → Option (Keyed Value)
  | [], _ => none
  | [name], entries =>
    if Keyed.has name entries then none
    else if opening = none || opening = some .dotted then some (Keyed.insert name value entries)
    else none
  | name :: rest, entries =>
    match Keyed.get? name entries with
    | none => (add (some .dotted) value rest []).map fun inner =>
      Keyed.insert name (.table .dotted inner) entries
    | some (.table .dotted inner) => (add (some .dotted) value rest inner).map fun inner =>
      Keyed.insert name (.table .dotted inner) entries
    | some (.table .implied inner) => (add (some .implied) value rest inner).map fun inner =>
      Keyed.insert name (.table .implied inner) entries
    | some (.tables (last :: done)) => (add (some .header) value rest last).map fun inner =>
      Keyed.insert name (.tables (inner :: done)) entries
    | _ => none

/-- Change the table that a header has opened. -/
def change (f : Keyed Value → Option (Keyed Value)) :
    List String → Keyed Value → Option (Keyed Value)
  | [], entries => f entries
  | name :: rest, entries =>
    match Keyed.get? name entries with
    | some (.table opening inner) => (change f rest inner).map fun inner =>
      Keyed.insert name (.table opening inner) entries
    | some (.tables (last :: done)) => (change f rest last).map fun inner =>
      Keyed.insert name (.tables (inner :: done)) entries
    | _ => none

/-- Open the table under `name` by a header, which is `repeated` if it opens one of several. -/
def openLast (repeated : Bool) (name : String) (entries : Keyed Value) : Option (Keyed Value) :=
  match Keyed.get? name entries with
  | none => some (Keyed.insert name (if repeated then .tables [[]] else .table .header []) entries)
  | some (.table .implied inner) =>
    if repeated then none else some (Keyed.insert name (.table .header inner) entries)
  | some (.tables done) =>
    if repeated then some (Keyed.insert name (.tables ([] :: done)) entries) else none
  | _ => none

/-- Open the table of a header. The tables on the way are implied if nothing has opened them. -/
def openHeader (repeated : Bool) : List String → Keyed Value → Option (Keyed Value)
  | [], _ => none
  | [name], entries => openLast repeated name entries
  | name :: rest, entries =>
    match Keyed.get? name entries with
    | none => (openHeader repeated rest []).map fun inner =>
      Keyed.insert name (.table .implied inner) entries
    | some (.table .inline _) => none
    | some (.table opening inner) => (openHeader repeated rest inner).map fun inner =>
      Keyed.insert name (.table opening inner) entries
    | some (.tables (last :: done)) => (openHeader repeated rest last).map fun inner =>
      Keyed.insert name (.tables (inner :: done)) entries
    | _ => none

/-! ### Lines and values -/

def skipBlanks (text : List Char) : List Char := text.dropWhile isBlank

def skipComment : List Char → List Char
  | '#' :: rest => rest.dropWhile isPlain
  | text => text

/-- The text after the end of a line. Blanks and a comment may stand before the end. -/
def endLine? (text : List Char) : Option (List Char) :=
  match skipComment (skipBlanks text) with
  | [] => some []
  | '\n' :: rest => some rest
  | '\r' :: '\n' :: rest => some rest
  | _ => none

/-- Whether `c` may stand in a key without quotes. -/
def isBare (c : Char) : Bool := isCapital c || isSmall c || isDigit c || c = '_' || c = '-'

def keyPart? (text : List Char) : Option (String × List Char) :=
  match text with
  | '"' :: rest => basic [] rest
  | '\'' :: rest => literal [] rest
  | _ =>
    let part := text.takeWhile isBare
    if part = [] then none else some (String.ofList part, text.dropWhile isBare)

/-- The greatest nesting of values, and the greatest number of parts of a key. -/
def maxDepth : Nat := 79

/-- A dotted key of at most `room` parts, with blanks around them, and what follows. -/
def keyParts? : (room : Nat) → List Char → Option (List String × List Char)
  | 0, _ => none
  | room + 1, text => do
    let (part, rest) ← keyPart? (skipBlanks text)
    match skipBlanks rest with
    | '.' :: rest =>
      let (parts, rest) ← keyParts? room rest
      return (part :: parts, rest)
    | rest => return ([part], rest)

def key? (text : List Char) : Option (List String × List Char) := keyParts? maxDepth text

def endsScalar (c : Char) : Bool :=
  isBlank c || c = '\n' || c = '\r' || c = ',' || c = ']' || c = '}' || c = '#'

/-- Whether a time follows a date and a space. -/
def startsTime : List Char → Bool
  | ' ' :: a :: b :: ':' :: _ => isDigit a && isDigit b
  | _ => false

/-- A scalar, and what follows. A date and a time may have a space between them. -/
def scalar? (text : List Char) : Option (Value × List Char) :=
  let word := text.takeWhile fun c => !endsScalar c
  let rest := text.dropWhile fun c => !endsScalar c
  let whole :=
    if isDate word && startsTime rest then
      word ++ ' ' :: (rest.drop 1).takeWhile fun c => !endsScalar c
    else word
  if isScalar whole then some (.scalar (String.ofList whole), text.drop whole.length) else none

def skipLines : (bound : Nat) → List Char → List Char
  | 0, text => text
  | bound + 1, text =>
    match skipComment (skipBlanks text) with
    | '\n' :: rest => skipLines bound rest
    | '\r' :: '\n' :: rest => skipLines bound rest
    | rest => rest

mutual
/-- A value that nests at most `room` deep, and what follows. -/
def value? : (bound room : Nat) → List Char → Option (Value × List Char)
  | 0, _, _ => none
  | bound + 1, room, text =>
    match room, text with
    | room + 1, '[' :: rest => list? bound room [] rest
    | room + 1, '{' :: rest =>
      match skipBlanks rest with
      | '}' :: rest => some (.table .inline [], rest)
      | rest => pairs? bound room [] rest
    | _, '"' :: _ | _, '\'' :: _ => (quoted? text).map fun read => (.text read.1, read.2)
    | _, _ => scalar? text
def list? : (bound room : Nat) → (read : List Value) → List Char → Option (Value × List Char)
  | 0, _, _, _ => none
  | bound + 1, room, read, text =>
    match skipLines text.length text with
    | ']' :: rest => some (.list read.reverse, rest)
    | text => do
      let (item, rest) ← value? bound room text
      match skipLines rest.length rest with
      | ',' :: rest => list? bound room (item :: read) rest
      | ']' :: rest => return (.list (item :: read).reverse, rest)
      | _ => none
def pairs? : (bound room : Nat) → (read : Keyed Value) → List Char → Option (Value × List Char)
  | 0, _, _, _ => none
  | bound + 1, room, read, text => do
    let (key, rest) ← key? text
    match rest with
    | '=' :: rest =>
      let (value, rest) ← value? bound room (skipBlanks rest)
      let entries ← add none value key read
      match skipBlanks rest with
      | ',' :: rest => pairs? bound room entries rest
      | '}' :: rest => return (.table .inline entries, rest)
      | _ => none
    | _ => none
end

/-- Read the lines of a document into `root`. Entries go to the table of the last header. -/
def lines? : (bound : Nat) → (header : List String) → (root : Keyed Value) → List Char →
    Option (Keyed Value)
  | 0, _, _, _ => none
  | bound + 1, header, root, text =>
    match skipBlanks text with
    | [] => some root
    | '[' :: '[' :: rest => do
      let (key, rest) ← key? rest
      match rest with
      | ']' :: ']' :: rest => lines? bound key (← openHeader true key root) (← endLine? rest)
      | _ => none
    | '[' :: rest => do
      let (key, rest) ← key? rest
      match rest with
      | ']' :: rest => lines? bound key (← openHeader false key root) (← endLine? rest)
      | _ => none
    | text =>
      match endLine? text with
      | some rest => lines? bound header root rest
      | none => do
        let (key, rest) ← key? text
        match rest with
        | '=' :: rest =>
          let (value, rest) ← value? (2 * rest.length + 2) maxDepth (skipBlanks rest)
          lines? bound header (← change (add none value key) header root) (← endLine? rest)
        | _ => none

/-- The entries of a document. A mark of the byte order at its start is skipped. -/
def read? (text : String) : Option (Keyed Value) :=
  let text := match text.toList with
    | '\uFEFF' :: rest => rest
    | text => text
  lines? (text.length + 1) [] [] text

end SettingsTree.Toml
