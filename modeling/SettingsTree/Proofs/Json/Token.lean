import SettingsTree.Proofs.Json.Numeral
import SettingsTree.Proofs.Json.Unique

/-! # The tokens of written values

A value is written as the sequence of its tokens, with white space between some of them. A string
shows where it ends. A number or a word ends at the first character that cannot belong to it, so
what is said of a value is said for every text that may follow it.
-/

namespace SettingsTree

namespace Json

open Draft

mutual
/-- A value whose numbers are all denoted by their written forms. -/
def Exact : Json → Prop
  | num n => n.Exact
  | arr items => ExactItems items
  | obj members => ExactMembers members
  | _ => True
def ExactItems : List Json → Prop
  | [] => True
  | item :: rest => item.Exact ∧ ExactItems rest
def ExactMembers : List (String × Json) → Prop
  | [] => True
  | member :: rest => member.2.Exact ∧ ExactMembers rest
end

mutual
def draft : Json → Draft
  | null => .null
  | bool value => .bool value
  | num n => .num (some n)
  | str text => .str (some text)
  | arr items => .arr (itemDrafts items)
  | obj members => .obj (memberDrafts members)
def itemDrafts : List Json → List Draft
  | [] => []
  | item :: rest => item.draft :: itemDrafts rest
def memberDrafts : List (String × Json) → List (Option String × Draft)
  | [] => []
  | member :: rest => (some member.1, member.2.draft) :: memberDrafts rest
end

mutual
def tokens : Json → List Token
  | str text => [.string (some text)]
  | arr [] => [.openArray, .closeArray]
  | arr (item :: rest) => .openArray :: (item.tokens ++ itemTokens rest)
  | obj [] => [.openObject, .closeObject]
  | obj (member :: rest) =>
    .openObject :: .string (some member.1) :: .colon :: (member.2.tokens ++ memberTokens rest)
  | scalar => [.scalar scalar.draft]
/-- The tokens of the items after the first, and of the end of the array. -/
def itemTokens : List Json → List Token
  | [] => [.closeArray]
  | item :: rest => .comma :: (item.tokens ++ itemTokens rest)
/-- The tokens of the members after the first, and of the end of the object. -/
def memberTokens : List (String × Json) → List Token
  | [] => [.closeObject]
  | member :: rest =>
    .comma :: .string (some member.1) :: .colon :: (member.2.tokens ++ memberTokens rest)
end

theorem itemDrafts_eq (items : List Json) : itemDrafts items = items.map draft := by
  induction items with
  | nil => rfl
  | cons item rest ih => rw [itemDrafts, ih, List.map_cons]

theorem exactItems_iff {items : List Json} : ExactItems items ↔ ∀ item ∈ items, item.Exact := by
  induction items with
  | nil => simp [ExactItems]
  | cons item rest ih => simp [ExactItems, ih]

end Json

namespace Draft

variable {done : List Token} {read : List Nat} {rest : List Char}

/-! ### Strings -/

theorem tokensFrom_unit {digits : List Char} {missing value n : Nat} (hne : digits ≠ [])
    (hlength : digits.length = missing)
    (h : digits.foldlM (fun n c => (Text.hexValue? c).map (16 * n + ·)) value = some n) :
    tokensFrom done (.unit read value missing) (digits ++ rest) =
      tokensFrom done (.string (n :: read)) rest := by
  subst hlength
  induction digits generalizing value with
  | nil => exact absurd rfl hne
  | cons d digits ih =>
    rw [List.foldlM_cons] at h
    obtain ⟨next, hnext, h⟩ := Option.bind_eq_some_iff.1 h
    obtain ⟨digit, hdigit, rfl⟩ := Option.map_eq_some_iff.1 hnext
    rw [List.cons_append, tokensFrom, readChar, hdigit, List.length_cons]
    cases digits with
    | nil =>
      cases h
      simp [Nat.mul_comm]
    | cons e digits =>
      rw [← ih (List.cons_ne_nil _ _) h]
      simp [Nat.mul_comm]

theorem tokensFrom_escapeChar (c : Char) :
    tokensFrom done (.string read) (Json.escapeChar c ++ rest) =
      tokensFrom done (.string (c.toNat :: read)) rest := by
  rcases Json.escapeChar_cases c with
    ⟨hc, hquote, hslash, hplain⟩ | ⟨d, hc, hd, hescaped⟩ | ⟨hc, hcontrol⟩
  · rw [hc]
    simp [tokensFrom, readChar, hquote, hslash, hplain]
  · rw [hc]
    simp [tokensFrom, readChar, hd, hescaped]
  · obtain ⟨hlength, hvalue⟩ := Json.unitValue?_hexDigits c.toNat hcontrol
    have hne : Text.hexDigits 4 c.toNat ≠ [] := fun h => by simp [h] at hlength
    rw [hc, ← tokensFrom_unit hne hlength hvalue]
    simp [tokensFrom, readChar]

theorem tokensFrom_escaped (chars : List Char) :
    tokensFrom done (.string read) (chars.flatMap Json.escapeChar ++ rest) =
      tokensFrom done (.string ((chars.map Char.toNat).reverse ++ read)) rest := by
  induction chars generalizing read with
  | nil => rfl
  | cons c chars ih =>
    rw [List.flatMap_cons, List.append_assoc, tokensFrom_escapeChar, ih]
    simp

/-- No character is half of a pair. -/
theorem joinUnits_toNat (chars done : List Char) :
    joinUnits done (chars.map Char.toNat) = some (chars.reverse ++ done) := by
  induction chars generalizing done with
  | nil => rfl
  | cons c chars ih =>
    have hvalid : c.toNat < 0xD800 ∨ 0xDFFF < c.toNat := by
      rcases c.valid with h | h
      · exact Or.inl h
      · exact Or.inr h.1
    have hsecond : isSecondUnit c.toNat = false := by
      simp [isSecondUnit]; omega
    have hfirst : isFirstUnit c.toNat = false := by
      simp [isFirstUnit]; omega
    rw [List.map_cons, joinUnits.eq_def]
    simp [hsecond, hfirst, ih]

theorem tokensFrom_string (text : String) :
    tokensFrom done .between (Json.stringChars text ++ rest) =
      tokensFrom (.string (some text) :: done) .between rest := by
  have hjoin : joinUnits [] (text.toList.map Char.toNat).reverse = some text.toList := by
    rw [← List.map_reverse, joinUnits_toNat]
    simp
  have hchars : Json.stringChars text ++ rest =
      '"' :: (text.toList.flatMap Json.escapeChar ++ '"' :: rest) := by
    simp [Json.stringChars]
  have hopen (chars : List Char) :
      tokensFrom done .between ('"' :: chars) = tokensFrom done (.string []) chars := by
    simp [tokensFrom, readChar, startToken]
  rw [hchars, hopen, tokensFrom_escaped]
  simp [tokensFrom, readChar, hjoin]

/-! ### Numbers and words -/

/-- What may follow a value: the end of the text, or a character that no number or word has. -/
def Ends (rest : List Char) : Prop :=
  ∀ c ∈ rest.head?, isNumberChar c = false ∧ Text.isSmall c = false

/-- A number or word ends where something follows that is no part of it. -/
theorem tokensFrom_ended {reading : Reading} {last : List Token}
    (hfinish : finishToken reading = some last)
    (hnext : ∀ c ∈ rest.head?, readChar reading c =
      (startToken c).map fun next => (last ++ next.1, next.2)) :
    tokensFrom done reading rest = tokensFrom (last.reverse ++ done) .between rest := by
  cases rest with
  | nil =>
    rw [tokensFrom, tokensFrom, hfinish]
    simp [finishToken]
  | cons c rest =>
    rw [tokensFrom, tokensFrom, hnext c rfl, readChar]
    cases startToken c <;> simp

theorem tokensFrom_number {digits : List Char} {parts : Number.Parts}
    (hsplit : Number.split? digits.reverse = some parts) (hends : Ends rest) :
    tokensFrom done (.number digits) rest =
      tokensFrom (.scalar (.num (Number.ofParts? parts)) :: done) .between rest := by
  have hfinish : finishToken (.number digits) =
      some [.scalar (.num (Number.ofParts? parts))] := by
    simp [finishToken, hsplit]
  refine tokensFrom_ended hfinish fun c hc => ?_
  simp only [readChar, (hends c hc).1, hfinish]
  cases startToken c <;> rfl

theorem tokensFrom_word (letters : List Char) {value : Draft}
    (hword : wordValue? letters.reverse = some value) (hends : Ends rest) :
    tokensFrom done (.word letters) rest =
      tokensFrom (.scalar value :: done) .between rest := by
  have hfinish : finishToken (.word letters) = some [.scalar value] := by
    simp [finishToken, hword]
  refine tokensFrom_ended hfinish fun c hc => ?_
  simp only [readChar, (hends c hc).2, hfinish]
  cases startToken c <;> rfl

theorem tokensFrom_numberChars {digits chars : List Char}
    (h : ∀ c ∈ chars, isNumberChar c = true) :
    tokensFrom done (.number digits) (chars ++ rest) =
      tokensFrom done (.number (chars.reverse ++ digits)) rest := by
  induction chars generalizing digits with
  | nil => rfl
  | cons c chars ih =>
    rw [List.forall_mem_cons] at h
    have hread : readChar (.number digits) c = some ([], .number (c :: digits)) := by
      simp [readChar, h.1]
    rw [List.cons_append, tokensFrom, hread]
    simp [ih h.2]

theorem startToken_number {c : Char} (h : Text.isDigit c = true ∨ c = '-') :
    startToken c = some ([], .number [c]) := by
  -- no other character that starts a token is a digit or a sign
  fun_cases startToken c <;> simp_all [Text.isDigit]

theorem tokensFrom_numeral {n : Number} (exact : n.Exact) (hends : Ends rest) :
    tokensFrom done .between (n.chars ++ rest) =
      tokensFrom (.scalar (.num (some n)) :: done) .between rest := by
  obtain ⟨parts, hsplit, hparts⟩ := Option.map_eq_some_iff.1 exact
  obtain ⟨c, chars, hchars⟩ := List.exists_cons_of_ne_nil n.chars_ne_nil
  have hall : ∀ d ∈ chars, isNumberChar d = true := fun d hd =>
    Number.isNumberChar_of_mem_chars (hchars ▸ List.mem_cons_of_mem _ hd)
  have hstart := startToken_number (Number.head_chars n c (by rw [hchars]; rfl))
  have hread : Number.split? (chars.reverse ++ [c]).reverse = some parts := by
    rw [List.reverse_append, List.reverse_reverse, List.reverse_singleton,
      List.singleton_append, ← hchars, hsplit]
  have hopen : tokensFrom done .between (c :: (chars ++ rest)) =
      tokensFrom done (.number [c]) (chars ++ rest) := by
    simp [tokensFrom, readChar, hstart]
  rw [hchars, List.cons_append, hopen, tokensFrom_numberChars hall,
    tokensFrom_number hread hends, hparts]

/-! ### White space -/

theorem tokensFrom_spaces (count : Nat) :
    tokensFrom done .between (List.replicate count ' ' ++ rest) =
      tokensFrom done .between rest := by
  induction count with
  | zero => rfl
  | succ count ih => simp [List.replicate_succ, tokensFrom, readChar, startToken, ih]

theorem tokensFrom_newLine (level : Nat) :
    tokensFrom done .between (Json.newLine level ++ rest) = tokensFrom done .between rest := by
  have hopen (chars : List Char) :
      tokensFrom done .between ('\n' :: chars) = tokensFrom done .between chars := by
    simp [tokensFrom, readChar, startToken]
  rw [Json.newLine, List.cons_append, hopen, tokensFrom_spaces]

/-! ### Values -/

theorem tokensFrom_symbol {c : Char} (token : Token)
    (h : startToken c = some ([token], .between)) :
    tokensFrom done .between (c :: rest) = tokensFrom (token :: done) .between rest := by
  simp [tokensFrom, readChar, h]

theorem tokensFrom_scalar {v : Json} (exact : v.Exact) (scalar : v.depth = 0) (hends : Ends rest) :
    tokensFrom done .between (v.scalarChars ++ rest) =
      tokensFrom (v.tokens.reverse ++ done) .between rest := by
  cases v with
  | null => exact tokensFrom_word ['l', 'l', 'u', 'n'] rfl hends
  | bool value =>
    cases value with
    | true => exact tokensFrom_word ['e', 'u', 'r', 't'] rfl hends
    | false => exact tokensFrom_word ['e', 's', 'l', 'a', 'f'] rfl hends
  | num n => exact tokensFrom_numeral exact hends
  | str text => exact tokensFrom_string text
  | arr items => simp [Json.depth] at scalar
  | obj members => simp [Json.depth] at scalar

theorem ends_nil : Ends [] := nofun

theorem ends_prettyItems (level : Nat) (items : List Json) :
    Ends (Json.prettyItems level items ++ rest) := by
  cases items with
  | nil => rintro c ⟨⟩; decide
  | cons item items => rintro c ⟨⟩; decide

theorem ends_prettyMembers (level : Nat) (members : List (String × Json)) :
    Ends (Json.prettyMembers level members ++ rest) := by
  cases members with
  | nil => rintro c ⟨⟩; decide
  | cons member members => rintro c ⟨⟩; decide

/-- A member of an object, up to its value. -/
theorem tokensFrom_name (level : Nat) (name : String) :
    tokensFrom done .between
        (Json.newLine level ++ (Json.stringChars name ++ ':' :: ' ' :: rest)) =
      tokensFrom (.colon :: .string (some name) :: done) .between rest := by
  rw [tokensFrom_newLine, tokensFrom_string, tokensFrom_symbol .colon rfl]
  exact tokensFrom_spaces 1

mutual
/-- A written value is read as its tokens, whatever text ends it. -/
theorem tokensFrom_pretty {v : Json} {done : List Token} {rest : List Char} (level : Nat)
    (exact : v.Exact) (hends : Ends rest) :
    tokensFrom done .between (v.prettyChars level ++ rest) =
      tokensFrom (v.tokens.reverse ++ done) .between rest := by
  cases v with
  | null => exact tokensFrom_scalar exact rfl hends
  | bool value => exact tokensFrom_scalar exact rfl hends
  | num n => exact tokensFrom_scalar exact rfl hends
  | str text => exact tokensFrom_scalar exact rfl hends
  | arr items =>
    cases items with
    | nil => rfl
    | cons item items =>
      obtain ⟨hitem, hitems⟩ := exact
      simp only [Json.prettyChars, Json.tokens, List.cons_append, List.append_assoc]
      rw [tokensFrom_symbol .openArray rfl, tokensFrom_newLine,
        tokensFrom_pretty (level + 1) hitem (ends_prettyItems level items),
        tokensFrom_prettyItems level hitems]
      simp
  | obj members =>
    cases members with
    | nil => rfl
    | cons member members =>
      obtain ⟨hmember, hmembers⟩ := exact
      simp only [Json.prettyChars, Json.tokens, List.cons_append, List.append_assoc]
      rw [tokensFrom_symbol .openObject rfl, tokensFrom_name,
        tokensFrom_pretty (level + 1) hmember (ends_prettyMembers level members),
        tokensFrom_prettyMembers level hmembers]
      simp
theorem tokensFrom_prettyItems {items : List Json} {done : List Token} {rest : List Char}
    (level : Nat) (exact : Json.ExactItems items) :
    tokensFrom done .between (Json.prettyItems level items ++ rest) =
      tokensFrom ((Json.itemTokens items).reverse ++ done) .between rest := by
  cases items with
  | nil =>
    rw [Json.prettyItems, List.append_assoc, tokensFrom_newLine]
    exact tokensFrom_symbol _ rfl
  | cons item items =>
    obtain ⟨hitem, hitems⟩ := exact
    simp only [Json.prettyItems, Json.itemTokens, List.cons_append, List.append_assoc]
    rw [tokensFrom_symbol .comma rfl, tokensFrom_newLine,
      tokensFrom_pretty (level + 1) hitem (ends_prettyItems level items),
      tokensFrom_prettyItems level hitems]
    simp
theorem tokensFrom_prettyMembers {members : List (String × Json)} {done : List Token}
    {rest : List Char} (level : Nat) (exact : Json.ExactMembers members) :
    tokensFrom done .between (Json.prettyMembers level members ++ rest) =
      tokensFrom ((Json.memberTokens members).reverse ++ done) .between rest := by
  cases members with
  | nil =>
    rw [Json.prettyMembers, List.append_assoc, tokensFrom_newLine]
    exact tokensFrom_symbol _ rfl
  | cons member members =>
    obtain ⟨hmember, hmembers⟩ := exact
    simp only [Json.prettyMembers, Json.memberTokens, List.cons_append, List.append_assoc]
    rw [tokensFrom_symbol .comma rfl, tokensFrom_name,
      tokensFrom_pretty (level + 1) hmember (ends_prettyMembers level members),
      tokensFrom_prettyMembers level hmembers]
    simp
end

theorem tokens?_pretty {v : Json} (exact : v.Exact) : tokens? v.pretty.toList = some v.tokens := by
  have hread : tokensFrom [] .between (v.prettyChars 0 ++ []) =
      tokensFrom (v.tokens.reverse ++ []) .between [] := tokensFrom_pretty 0 exact ends_nil
  rw [List.append_nil, List.append_nil] at hread
  rw [tokens?, Json.pretty, String.toList_ofList, hread, tokensFrom]
  simp [finishToken]

end Draft

end SettingsTree
