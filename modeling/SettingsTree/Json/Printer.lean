import SettingsTree.Digest
import SettingsTree.Json.Numeral
import SettingsTree.Keyed

/-! # Writing JSON

The compact form has no white space. The indented form puts every item and every member on a line of
its own, two spaces deeper than the value that holds it; empty arrays and objects stay on one line.

In the canonical form the members of every object are sorted by name. Two values that differ only in
the order of members have the same canonical text, and so the same digest.
-/

namespace SettingsTree.Json

open Text

def escapeChar (c : Char) : List Char :=
  match c with
  | '"' => ['\\', '"']
  | '\\' => ['\\', '\\']
  | '\x08' => ['\\', 'b']
  | '\t' => ['\\', 't']
  | '\n' => ['\\', 'n']
  | '\x0c' => ['\\', 'f']
  | '\r' => ['\\', 'r']
  | c => if c.toNat < 0x20 then '\\' :: 'u' :: hexDigits 4 c.toNat else [c]

def stringChars (text : String) : List Char := '"' :: text.toList.flatMap escapeChar ++ ['"']

/-- A value that holds no other values, written. -/
def scalarChars : Json → List Char
  | bool true => ['t', 'r', 'u', 'e']
  | bool false => ['f', 'a', 'l', 's', 'e']
  | num n => n.chars
  | str text => stringChars text
  | _ => ['n', 'u', 'l', 'l']

mutual
def compactChars : Json → List Char
  | arr [] => ['[', ']']
  | arr (item :: rest) => '[' :: (item.compactChars ++ compactItems rest)
  | obj [] => ['{', '}']
  | obj (member :: rest) =>
    '{' :: (stringChars member.1 ++ ':' :: member.2.compactChars ++ compactMembers rest)
  | scalar => scalarChars scalar
/-- The items after the first, and the end of the array. -/
def compactItems : List Json → List Char
  | [] => [']']
  | item :: rest => ',' :: (item.compactChars ++ compactItems rest)
/-- The members after the first, and the end of the object. -/
def compactMembers : List (String × Json) → List Char
  | [] => ['}']
  | member :: rest =>
    ',' :: (stringChars member.1 ++ ':' :: member.2.compactChars ++ compactMembers rest)
end

def compact (value : Json) : String := String.ofList value.compactChars

def newLine (level : Nat) : List Char := '\n' :: List.replicate (2 * level) ' '

mutual
/-- The indented form of a value on a line of the given level. -/
def prettyChars (level : Nat) : Json → List Char
  | arr [] => ['[', ']']
  | arr (item :: rest) =>
    '[' :: (newLine (level + 1) ++ item.prettyChars (level + 1) ++ prettyItems level rest)
  | obj [] => ['{', '}']
  | obj (member :: rest) =>
    '{' :: (newLine (level + 1) ++ stringChars member.1 ++ ':' :: ' ' ::
      member.2.prettyChars (level + 1) ++ prettyMembers level rest)
  | scalar => scalarChars scalar
/-- The items after the first, and the end of the array. -/
def prettyItems (level : Nat) : List Json → List Char
  | [] => newLine level ++ [']']
  | item :: rest =>
    ',' :: (newLine (level + 1) ++ item.prettyChars (level + 1) ++ prettyItems level rest)
/-- The members after the first, and the end of the object. -/
def prettyMembers (level : Nat) : List (String × Json) → List Char
  | [] => newLine level ++ ['}']
  | member :: rest =>
    ',' :: (newLine (level + 1) ++ stringChars member.1 ++ ':' :: ' ' ::
      member.2.prettyChars (level + 1) ++ prettyMembers level rest)
end

def pretty (value : Json) : String := String.ofList (value.prettyChars 0)

/-! ### Canonical form -/

mutual
/-- A value with the members of every object sorted by name. -/
def sorted : Json → Json
  | arr items => arr (sortedItems items)
  | obj members => obj (sortOn (fun a b => decide (a.1 ≤ b.1)) (sortedMembers members))
  | scalar => scalar
def sortedItems : List Json → List Json
  | [] => []
  | item :: rest => item.sorted :: sortedItems rest
def sortedMembers : List (String × Json) → List (String × Json)
  | [] => []
  | member :: rest => (member.1, member.2.sorted) :: sortedMembers rest
end

def canonical (value : Json) : String := value.sorted.compact

/-- The digest of a value. It depends on everything in the value but the order of members. -/
def digest (value : Json) : String := Digest.ofText value.canonical

end SettingsTree.Json
