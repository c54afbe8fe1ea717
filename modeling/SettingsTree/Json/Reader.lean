import SettingsTree.Json.Draft
import SettingsTree.Json.Numeral

/-! # Reading JSON

A text is read character by character. Between tokens the reader skips blanks; inside a string, a
number or a word it keeps what it has read of it. A number or a word ends at the first character
that cannot belong to it, and that character starts the next token. An escape in a string gives a
code unit; the two units of a pair are put together when the string has ended.

The tokens of a document are read one by one. The reader keeps the arrays and objects that are still
open, innermost first, and knows what may come next. Members stay as they are written, repeated
names included.
-/

namespace SettingsTree

namespace Draft

/-! ### Tokens -/

section

open Text

inductive Token where
  | openArray | closeArray | openObject | closeObject | colon | comma
  | scalar (value : Draft)
  /-- A string, if its surrogates are paired. -/
  | string (text : Option String)

/-- Where the reader stands. What was read of a token is kept last character first. -/
inductive Reading where
  | between
  | number (read : List Char)
  | word (read : List Char)
  | string (read : List Nat)
  /-- In a string, after a backslash. -/
  | escape (read : List Nat)
  /-- In a string, with so many hexadecimal digits of a code unit to come. -/
  | unit (read : List Nat) (value missing : Nat)

def isNumberChar (c : Char) : Bool :=
  isDigit c || c = '-' || c = '+' || c = '.' || c = 'e' || c = 'E'

def wordValue? (word : List Char) : Option Draft :=
  if word = ['n', 'u', 'l', 'l'] then some null
  else if word = ['t', 'r', 'u', 'e'] then some (bool true)
  else if word = ['f', 'a', 'l', 's', 'e'] then some (bool false)
  else none

/-- Start a token with `c`: the token if it is complete, and where the reader stands then. -/
def startToken (c : Char) : Option (List Token × Reading) :=
  match c with
  | ' ' | '\t' | '\n' | '\r' => some ([], .between)
  | '[' => some ([.openArray], .between)
  | ']' => some ([.closeArray], .between)
  | '{' => some ([.openObject], .between)
  | '}' => some ([.closeObject], .between)
  | ':' => some ([.colon], .between)
  | ',' => some ([.comma], .between)
  | '"' => some ([], .string [])
  | c =>
    if isDigit c || c = '-' then some ([], .number [c])
    else if isSmall c then some ([], .word [c])
    else none

/-- The token that a number or a word is, once it has ended. -/
def finishToken : Reading → Option (List Token)
  | .between => some []
  | .number read =>
    (Number.split? read.reverse).map fun parts => [.scalar (.num (Number.ofParts? parts))]
  | .word read => (wordValue? read.reverse).map fun value => [.scalar value]
  | _ => none

def isFirstUnit (unit : Nat) : Bool := 0xD800 ≤ unit && unit ≤ 0xDBFF

def isSecondUnit (unit : Nat) : Bool := 0xDC00 ≤ unit && unit ≤ 0xDFFF

def ofPair (first second : Nat) : Char :=
  Char.ofNat (0x10000 + (first - 0xD800) * 0x400 + (second - 0xDC00))

/-- The characters of a string, when `done` are the last ones and what was read before them is given
last unit first. Both units of a pair are needed. -/
def joinUnits (done : List Char) : List Nat → Option (List Char)
  | [] => some done
  | unit :: rest =>
    if isSecondUnit unit then
      match rest with
      | [] => none
      | first :: before =>
        if isFirstUnit first then joinUnits (ofPair first unit :: done) before else none
    else if isFirstUnit unit then none
    else joinUnits (Char.ofNat unit :: done) rest

def escaped? (c : Char) : Option Char :=
  match c with
  | '"' => some '"'
  | '\\' => some '\\'
  | '/' => some '/'
  | 'b' => some '\x08'
  | 'f' => some '\x0c'
  | 'n' => some '\n'
  | 'r' => some '\r'
  | 't' => some '\t'
  | _ => none

def readChar (reading : Reading) (c : Char) : Option (List Token × Reading) :=
  match reading with
  | .between => startToken c
  | .number read =>
    if isNumberChar c then some ([], .number (c :: read))
    else do
      let done ← finishToken (.number read)
      let next ← startToken c
      pure (done ++ next.1, next.2)
  | .word read =>
    if isSmall c then some ([], .word (c :: read))
    else do
      let done ← finishToken (.word read)
      let next ← startToken c
      pure (done ++ next.1, next.2)
  | .string read =>
    if c = '"' then some ([.string ((joinUnits [] read).map String.ofList)], .between)
    else if c = '\\' then some ([], .escape read)
    else if c.toNat < 0x20 then none
    else some ([], .string (c.toNat :: read))
  | .escape read =>
    if c = 'u' then some ([], .unit read 0 4)
    else (escaped? c).map fun d => ([], .string (d.toNat :: read))
  | .unit read value missing =>
    (hexValue? c).map fun digit =>
      let unit := value * 16 + digit
      ([], if missing ≤ 1 then .string (unit :: read) else .unit read unit (missing - 1))

/-- The tokens of a text, when `done` are the tokens before it, last one first. -/
def tokensFrom (done : List Token) (reading : Reading) : List Char → Option (List Token)
  | [] => (finishToken reading).map fun last => (last.reverse ++ done).reverse
  | c :: rest =>
    match readChar reading c with
    | none => none
    | some next => tokensFrom (next.1.reverse ++ done) next.2 rest

def tokens? (text : List Char) : Option (List Token) := tokensFrom [] .between text

end

/-! ### Documents -/

/-- An array or object that is still open. What was read of it is kept last entry first. -/
inductive Frame where
  | items (read : List Draft)
  | members (read : List (Option String × Draft)) (name : Option String)

inductive Awaiting where
  | value (frames : List Frame)
  /-- The first item of an array, or its end. -/
  | firstItem (frames : List Frame)
  /-- The first member of an object, or its end. -/
  | firstMember (frames : List Frame)
  | member (read : List (Option String × Draft)) (frames : List Frame)
  | colon (read : List (Option String × Draft)) (name : Option String) (frames : List Frame)
  /-- After a complete value: a comma or the end of what holds it, or the end of the document. -/
  | after (value : Draft) (frames : List Frame)

def startValue (frames : List Frame) : Token → Option Awaiting
  | .openArray => some (.firstItem frames)
  | .openObject => some (.firstMember frames)
  | .scalar value => some (.after value frames)
  | .string text => some (.after (.str text) frames)
  | _ => none

def readToken : Awaiting → Token → Option Awaiting
  | .value frames, token => startValue frames token
  | .firstItem frames, .closeArray => some (.after (.arr []) frames)
  | .firstItem frames, token => startValue (.items [] :: frames) token
  | .firstMember frames, .closeObject => some (.after (.obj []) frames)
  | .firstMember frames, .string name => some (.colon [] name frames)
  | .member read frames, .string name => some (.colon read name frames)
  | .colon read name frames, .colon => some (.value (.members read name :: frames))
  | .after value (.items read :: frames), .comma => some (.value (.items (value :: read) :: frames))
  | .after value (.items read :: frames), .closeArray =>
    some (.after (.arr (value :: read).reverse) frames)
  | .after value (.members read name :: frames), .comma =>
    some (.member ((name, value) :: read) frames)
  | .after value (.members read name :: frames), .closeObject =>
    some (.after (.obj ((name, value) :: read).reverse) frames)
  | _, _ => none

def readTokens : Awaiting → List Token → Option Draft
  | .after value [], [] => some value
  | _, [] => none
  | awaiting, token :: rest =>
    match readToken awaiting token with
    | none => none
    | some next => readTokens next rest

def ofText? (text : String) : Option Draft := (tokens? text.toList).bind (readTokens (.value []))

end Draft

/-- The value of a document. Of several members with one name the first place and the last value
count. -/
def Json.parse? (text : String) : Option Json :=
  ((Draft.ofText? text).bind Draft.value?).map resolve

end SettingsTree
