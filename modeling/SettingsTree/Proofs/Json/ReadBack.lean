import SettingsTree.Json.Reader
import SettingsTree.Proofs.Json.Token

/-! # Reading back written documents

The reader goes through the tokens of a value with what is open around the value untouched. So a
document that was written for a value is read as that value.
-/

namespace SettingsTree.Draft

open Json

theorem readTokens_firstItem {v : Json} {frames : List Frame} {rest : List Token} :
    readTokens (.firstItem frames) (v.tokens ++ rest) =
      readTokens (.value (.items [] :: frames)) (v.tokens ++ rest) := by
  fun_cases Json.tokens v <;> rfl

mutual
/-- Reading the tokens of a value gives the value. -/
theorem readTokens_tokens {v : Json} {frames : List Frame} {rest : List Token} :
    readTokens (.value frames) (v.tokens ++ rest) = readTokens (.after v.draft frames) rest := by
  cases v with
  | null => rfl
  | bool value => rfl
  | num n => rfl
  | str text => rfl
  | arr items =>
    cases items with
    | nil => rfl
    | cons item items =>
      rw [Json.tokens, List.cons_append, List.append_assoc]
      calc readTokens (.firstItem frames) (item.tokens ++ (itemTokens items ++ rest))
        _ = readTokens (.after item.draft (.items [] :: frames)) (itemTokens items ++ rest) := by
          rw [readTokens_firstItem, readTokens_tokens]
        _ = readTokens (.after (.arr (itemDrafts (item :: items))) frames) rest :=
          readTokens_itemTokens
  | obj members =>
    cases members with
    | nil => rfl
    | cons member members =>
      rw [Json.tokens, List.cons_append, List.cons_append, List.cons_append, List.append_assoc]
      calc readTokens (.value (.members [] (some member.1) :: frames))
            (member.2.tokens ++ (memberTokens members ++ rest))
        _ = readTokens (.after member.2.draft (.members [] (some member.1) :: frames))
            (memberTokens members ++ rest) := readTokens_tokens
        _ = readTokens (.after (.obj (memberDrafts (member :: members))) frames) rest :=
          readTokens_memberTokens
theorem readTokens_itemTokens {items : List Json} {value : Draft} {read : List Draft}
    {frames : List Frame} {rest : List Token} :
    readTokens (.after value (.items read :: frames)) (itemTokens items ++ rest) =
      readTokens (.after (.arr (read.reverse ++ value :: itemDrafts items)) frames) rest := by
  cases items with
  | nil => simp [itemTokens, itemDrafts, readTokens, readToken]
  | cons item items =>
    rw [itemTokens, List.cons_append, List.append_assoc]
    calc readTokens (.value (.items (value :: read) :: frames))
          (item.tokens ++ (itemTokens items ++ rest))
      _ = readTokens (.after item.draft (.items (value :: read) :: frames))
          (itemTokens items ++ rest) := readTokens_tokens
      _ = readTokens (.after (.arr ((value :: read).reverse ++ item.draft :: itemDrafts items))
          frames) rest := readTokens_itemTokens
      _ = readTokens (.after (.arr (read.reverse ++ value :: itemDrafts (item :: items)))
          frames) rest := by simp [itemDrafts]
theorem readTokens_memberTokens {members : List (String × Json)} {value : Draft}
    {name : Option String} {read : List (Option String × Draft)} {frames : List Frame}
    {rest : List Token} :
    readTokens (.after value (.members read name :: frames)) (memberTokens members ++ rest) =
      readTokens (.after (.obj (read.reverse ++ (name, value) :: memberDrafts members)) frames)
        rest := by
  cases members with
  | nil => simp [memberTokens, memberDrafts, readTokens, readToken]
  | cons member members =>
    rw [memberTokens, List.cons_append, List.cons_append, List.cons_append, List.append_assoc]
    calc readTokens (.value (.members ((name, value) :: read) (some member.1) :: frames))
          (member.2.tokens ++ (memberTokens members ++ rest))
      _ = readTokens (.after member.2.draft
          (.members ((name, value) :: read) (some member.1) :: frames))
          (memberTokens members ++ rest) := readTokens_tokens
      _ = readTokens (.after (.obj (((name, value) :: read).reverse ++
          (some member.1, member.2.draft) :: memberDrafts members)) frames) rest :=
        readTokens_memberTokens
      _ = readTokens (.after (.obj (read.reverse ++
          (name, value) :: memberDrafts (member :: members))) frames) rest := by
        simp [memberDrafts]
end

/-- A written document is read as the value it was written for. -/
theorem ofText?_pretty {v : Json} (exact : v.Exact) : ofText? v.pretty = some v.draft := by
  rw [ofText?, tokens?_pretty exact, Option.bind_some]
  have hread : readTokens (.value []) (v.tokens ++ []) = readTokens (.after v.draft []) [] :=
    readTokens_tokens
  rw [List.append_nil] at hread
  exact hread

end SettingsTree.Draft
