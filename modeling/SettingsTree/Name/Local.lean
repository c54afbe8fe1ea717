import SettingsTree.Keyed
import SettingsTree.Text.Basic
import SettingsTree.Text.Lowercase

/-! # Local names of remote identifiers

A remote identifier runs its words together and starts each with a capital. Its words are separated
in two passes, each of which reads the text once from left to right: the first separates the last
capital of a run of capitals from the run when a small letter follows, the second separates a
capital from the small letter or digit before it. Both know ASCII letters only. The result is then
written in lower case.

A local name is the snake-case form of a remote identifier, moved out of the way of reserved words
by underscores at its end. Siblings whose local names collide are told apart by numbers. In both
cases candidates are tried in order and the first one that is free is taken: among one candidate
more than there are taken names, pairwise different, one is free.
-/

namespace SettingsTree.Name

open SettingsTree.Text

/-! ### Identifiers in snake case -/

/-- Separate acronyms from the words that follow them. `run` holds the capitals that were read and
not yet written, last one first. -/
def splitAcronymsAfter (run : List Char) : List Char → List Char
  | [] => run.reverse
  | c :: rest =>
    if isCapital c then splitAcronymsAfter (c :: run) rest
    else match run with
      | first :: second :: before =>
        if isSmall c then
          (second :: before).reverse ++ '_' :: first :: c :: splitAcronymsAfter [] rest
        else run.reverse ++ c :: splitAcronymsAfter [] rest
      | _ => run.reverse ++ c :: splitAcronymsAfter [] rest

/-- Separate the last capital of every run of two or more capitals before a small letter. -/
def splitAcronyms (name : List Char) : List Char := splitAcronymsAfter [] name

/-- Separate every capital from the small letter or digit before it. -/
def splitWords : List Char → List Char
  | c :: d :: rest =>
    if (isSmall c || isDigit c) && isCapital d then c :: '_' :: d :: splitWords rest
    else c :: splitWords (d :: rest)
  | short => short

def snakeCase (name : String) : String :=
  String.ofList (lower (splitWords (splitAcronyms name.toList)))

/-! ### Names that are free -/

/-- The least number whose candidate is not taken. -/
def leastFree (taken : List String) (candidate : Nat → String) : Nat :=
  ((List.range (taken.length + 1)).find? fun i => !taken.contains (candidate i)).getD taken.length

/-- Words that are no local names anywhere: the keywords of the languages that scripts over the
settings are written in. -/
def reservedWords : List String := [
  "as", "async", "await", "break", "const", "continue", "crate", "dyn", "else", "enum", "extern",
  "false", "fn", "for", "if", "impl", "in", "let", "loop", "match", "mod", "move", "mut", "pub",
  "ref", "return", "self", "static", "struct", "super", "trait", "true", "type", "unsafe", "use",
  "where", "while", "abstract", "become", "box", "do", "final", "gen", "macro", "override", "priv",
  "try", "typeof", "unsized", "virtual", "yield", "and", "assert", "class", "def", "del", "elif",
  "except", "finally", "from", "global", "import", "is", "lambda", "nonlocal", "not", "or", "pass",
  "raise", "with"]

structure Naming where
  /-- Further reserved words, in the order in which they were given. -/
  extra : List String := []

namespace Naming

def reserved (naming : Naming) : List String := reservedWords ++ naming.extra

/-- The further reserved words, sorted and without repetitions. -/
def extraSorted (naming : Naming) : List String :=
  sortOn (fun a b => decide (a ≤ b)) naming.extra.eraseDups

def isReserved (naming : Naming) (name : String) : Bool := naming.reserved.contains name

def pad (name : String) (count : Nat) : String :=
  name ++ String.ofList (List.replicate count '_')

/-- The local name of a remote identifier: its snake-case form and as few underscores as make it
free. The empty identifier keeps its name. -/
def localName (naming : Naming) (remote : String) : String :=
  if remote = "" then ""
  else
    let plain := snakeCase remote
    pad plain (leastFree naming.reserved (pad plain))

end Naming

def numbered (name : String) (number : Nat) : String := name ++ "_" ++ Nat.repr number

/-- The name of one sibling, when `single` are the names that occur once and `given` the names that
earlier siblings received. -/
def distinguish (single given : List String) (name : String) : String :=
  if single.contains name then name
  else if given.contains name then
    numbered name (leastFree (single ++ given) (fun i => numbered name (i + 1)) + 1)
  else name

def distinguishAfter (single given : List String) : List String → List String
  | [] => []
  | name :: rest =>
    let chosen := distinguish single given name
    chosen :: distinguishAfter single (chosen :: given) rest

/-- Names for siblings, pairwise different. A name that occurs once is kept; of several equal ones
the first keeps the name and the later ones take the least free number. -/
def distinguishAll (names : List String) : List String :=
  distinguishAfter (names.filter fun name => names.count name = 1) [] names

end SettingsTree.Name
