import SettingsTree.Proofs.Json.Scalar
import SettingsTree.Proofs.Json.Unique

/-! # The compact text determines the value

Two values with the same compact text have the same structure, with the same names in the same order
and the same scalars; numbers are the same when they are written alike. The induction needs a
stronger statement: a value is recovered from every text that starts with it, provided that what
follows ends a number.
-/

namespace SettingsTree.Json

open Text

mutual
/-- Values that are written alike. -/
def SameText : Json → Json → Prop
  | null, null => True
  | bool a, bool b => a = b
  | num a, num b => a.chars = b.chars
  | str a, str b => a = b
  | arr as, arr bs => SameItems as bs
  | obj as, obj bs => SameMembers as bs
  | _, _ => False
def SameItems : List Json → List Json → Prop
  | [], [] => True
  | a :: as, b :: bs => SameText a b ∧ SameItems as bs
  | _, _ => False
def SameMembers : List (String × Json) → List (String × Json) → Prop
  | [], [] => True
  | a :: as, b :: bs => a.1 = b.1 ∧ SameText a.2 b.2 ∧ SameMembers as bs
  | _, _ => False
end

/-- What may follow a value: the end of the text, or a character that ends a number. -/
def Ends (rest : List Char) : Prop := ∀ c ∈ rest.head?, c = ',' ∨ c = ']' ∨ c = '}'

theorem Ends.not_number {rest : List Char} (h : Ends rest) :
    ∀ c ∈ rest.head?, Draft.isNumberChar c = false := by
  intro c hc
  rcases h c hc with rfl | rfl | rfl <;> decide

theorem ends_compactItems (items : List Json) (rest : List Char) :
    Ends (compactItems items ++ rest) := by
  cases items <;> simp [Ends, compactItems]

theorem ends_compactMembers (members : List (String × Json)) (rest : List Char) :
    Ends (compactMembers members ++ rest) := by
  cases members <;> simp [Ends, compactMembers]

@[simp] theorem compactChars_num (n : Number) : (num n).compactChars = n.chars := by
  simp [compactChars, scalarChars]

@[simp] theorem compactChars_str (text : String) : (str text).compactChars = stringChars text := by
  simp [compactChars, scalarChars]

/-! ### The first character -/

def kindOfFirst (c : Char) : String :=
  if c = 'n' then "null"
  else if c = 't' ∨ c = 'f' then "boolean"
  else if c = '"' then "string"
  else if c = '[' then "array"
  else if c = '{' then "object"
  else "number"

theorem kindOfFirst_of_isNumberChar {c : Char} (h : Draft.isNumberChar c = true) :
    kindOfFirst c = "number" := by
  have hne : ∀ d, Draft.isNumberChar d = false → c ≠ d := by
    rintro d hd rfl
    simp [hd] at h
  simp [kindOfFirst, hne 'n' (by decide), hne 't' (by decide), hne 'f' (by decide),
    hne '"' (by decide), hne '[' (by decide), hne '{' (by decide)]

theorem exists_first (v : Json) :
    ∃ c rest, v.compactChars = c :: rest ∧ kindOfFirst c = v.kind ∧ c ≠ ']' := by
  cases v with
  | null => exact ⟨'n', _, rfl, rfl, by decide⟩
  | bool value => cases value <;> exact ⟨_, _, rfl, rfl, by decide⟩
  | num n =>
    obtain ⟨c, rest, hchars⟩ := List.exists_cons_of_ne_nil n.chars_ne_nil
    have hnumber : Draft.isNumberChar c = true :=
      Number.isNumberChar_of_mem_chars (hchars ▸ List.mem_cons_self)
    refine ⟨c, rest, by rw [compactChars_num, hchars], kindOfFirst_of_isNumberChar hnumber, ?_⟩
    rintro rfl
    exact absurd hnumber (by decide)
  | str text => exact ⟨'"', _, compactChars_str text, rfl, by decide⟩
  | arr items => cases items <;> exact ⟨'[', _, rfl, rfl, by decide⟩
  | obj members => cases members <;> exact ⟨'{', _, rfl, rfl, by decide⟩

theorem kind_eq_of_append {v w : Json} {r s : List Char}
    (h : v.compactChars ++ r = w.compactChars ++ s) : v.kind = w.kind := by
  obtain ⟨c, rest, hv, hkind, -⟩ := exists_first v
  obtain ⟨d, rest', hw, hkind', -⟩ := exists_first w
  rw [hv, hw, List.cons_append, List.cons_append, List.cons.injEq] at h
  rw [← hkind, ← hkind', h.1]

/-! ### The whole text -/

/-- A value can be recovered from every text that starts with it. -/
def Recoverable (v : Json) : Prop :=
  ∀ (w : Json) (r s : List Char), Ends r → Ends s →
    v.compactChars ++ r = w.compactChars ++ s → SameText v w ∧ r = s

theorem compactItems_append_inj {items others : List Json} {r s : List Char}
    (recoverable : ∀ item ∈ items, Recoverable item)
    (h : compactItems items ++ r = compactItems others ++ s) : SameItems items others ∧ r = s := by
  induction items generalizing others with
  | nil =>
    cases others with
    | nil => simpa [compactItems, SameItems] using h
    | cons other others => simp [compactItems] at h
  | cons item items ih =>
    cases others with
    | nil => simp [compactItems] at h
    | cons other others =>
      rw [compactItems, compactItems, List.cons_append, List.cons_append, List.append_assoc,
        List.append_assoc, List.cons.injEq] at h
      obtain ⟨hitem, hrest⟩ := recoverable item List.mem_cons_self other _ _
        (ends_compactItems _ _) (ends_compactItems _ _) h.2
      obtain ⟨hitems, hrs⟩ := ih (fun i hi => recoverable i (List.mem_cons_of_mem _ hi)) hrest
      exact ⟨⟨hitem, hitems⟩, hrs⟩

theorem member_append_inj {member other : String × Json} {r s : List Char}
    (recoverable : Recoverable member.2) (hr : Ends r) (hs : Ends s)
    (h : stringChars member.1 ++ ':' :: (member.2.compactChars ++ r) =
      stringChars other.1 ++ ':' :: (other.2.compactChars ++ s)) :
    member.1 = other.1 ∧ SameText member.2 other.2 ∧ r = s := by
  obtain ⟨hname, hvalue⟩ := stringChars_append_inj h
  exact ⟨hname, recoverable other.2 r s hr hs (List.cons.inj hvalue).2⟩

theorem compactMembers_append_inj {members others : List (String × Json)} {r s : List Char}
    (recoverable : ∀ member ∈ members, Recoverable member.2)
    (h : compactMembers members ++ r = compactMembers others ++ s) :
    SameMembers members others ∧ r = s := by
  induction members generalizing others with
  | nil =>
    cases others with
    | nil => simpa [compactMembers, SameMembers] using h
    | cons other others => simp [compactMembers] at h
  | cons member members ih =>
    cases others with
    | nil => simp [compactMembers] at h
    | cons other others =>
      simp only [compactMembers, List.cons_append, List.append_assoc, List.cons.injEq,
        true_and] at h
      obtain ⟨hname, hvalue, hrest⟩ := member_append_inj (recoverable member List.mem_cons_self)
        (ends_compactMembers _ _) (ends_compactMembers _ _) h
      obtain ⟨hmembers, hrs⟩ := ih (fun m hm => recoverable m (List.mem_cons_of_mem _ hm)) hrest
      exact ⟨⟨hname, hvalue, hmembers⟩, hrs⟩

/-- No value starts where an array ends. -/
theorem compactChars_append_ne (v : Json) (r s : List Char) : v.compactChars ++ r ≠ ']' :: s := by
  obtain ⟨c, rest, hv, -, hne⟩ := exists_first v
  rw [hv, List.cons_append]
  exact fun h => hne (List.cons.inj h).1

theorem array_append_inj {items others : List Json} {r s : List Char}
    (recoverable : ∀ item ∈ items, Recoverable item)
    (h : (arr items).compactChars ++ r = (arr others).compactChars ++ s) :
    SameItems items others ∧ r = s := by
  cases items with
  | nil =>
    cases others with
    | nil => simpa [compactChars, SameItems] using h
    | cons other others =>
      simp only [compactChars, List.cons_append, List.append_assoc, List.cons.injEq,
        true_and] at h
      exact absurd h.symm (compactChars_append_ne _ _ _)
  | cons item items =>
    cases others with
    | nil =>
      simp only [compactChars, List.cons_append, List.append_assoc, List.cons.injEq,
        true_and] at h
      exact absurd h (compactChars_append_ne _ _ _)
    | cons other others =>
      simp only [compactChars, List.cons_append, List.append_assoc, List.cons.injEq,
        true_and] at h
      obtain ⟨hitem, hrest⟩ := recoverable item List.mem_cons_self other _ _
        (ends_compactItems _ _) (ends_compactItems _ _) h
      obtain ⟨hitems, hrs⟩ := compactItems_append_inj
        (fun i hi => recoverable i (List.mem_cons_of_mem _ hi)) hrest
      exact ⟨⟨hitem, hitems⟩, hrs⟩

theorem object_append_inj {members others : List (String × Json)} {r s : List Char}
    (recoverable : ∀ member ∈ members, Recoverable member.2)
    (h : (obj members).compactChars ++ r = (obj others).compactChars ++ s) :
    SameMembers members others ∧ r = s := by
  cases members with
  | nil =>
    cases others with
    | nil => simpa [compactChars, SameMembers] using h
    | cons other others => simp [compactChars, stringChars] at h
  | cons member members =>
    cases others with
    | nil => simp [compactChars, stringChars] at h
    | cons other others =>
      simp only [compactChars, List.cons_append, List.append_assoc, List.cons.injEq,
        true_and] at h
      obtain ⟨hname, hvalue, hrest⟩ := member_append_inj (recoverable member List.mem_cons_self)
        (ends_compactMembers _ _) (ends_compactMembers _ _) h
      obtain ⟨hmembers, hrs⟩ := compactMembers_append_inj
        (fun m hm => recoverable m (List.mem_cons_of_mem _ hm)) hrest
      exact ⟨⟨hname, hvalue, hmembers⟩, hrs⟩

theorem recoverable (v : Json) : Recoverable v := by
  intro w r s hr hs h
  have hkind := kind_eq_of_append h
  induction v generalizing w r s with
  | null =>
    cases w <;> simp [kind] at hkind
    simpa [compactChars, scalarChars, SameText] using h
  | bool a =>
    cases w <;> simp [kind] at hkind
    next b =>
      rw [SameText]
      cases a <;> cases b <;> simp [compactChars, scalarChars] at h <;> exact ⟨rfl, h⟩
  | num n =>
    cases w <;> simp [kind] at hkind
    next m =>
      rw [compactChars_num, compactChars_num] at h
      exact Number.chars_append_inj hr.not_number hs.not_number h
  | str a =>
    cases w <;> simp [kind] at hkind
    next b =>
      rw [compactChars_str, compactChars_str] at h
      exact stringChars_append_inj h
  | arr items ih =>
    cases w <;> simp [kind] at hkind
    next others =>
      exact array_append_inj
        (fun item hitem w r s hr hs h => ih item hitem w r s hr hs h (kind_eq_of_append h)) h
  | obj members ih =>
    cases w <;> simp [kind] at hkind
    next others =>
      exact object_append_inj
        (fun member hmember w r s hr hs h => ih member hmember w r s hr hs h (kind_eq_of_append h))
          h

theorem sameText_of_compact {v w : Json} (h : v.compact = w.compact) : SameText v w := by
  have hchars : v.compactChars = w.compactChars := String.ofList_injective h
  have hends : Ends [] := by simp [Ends]
  exact (recoverable v w [] [] hends hends (by rw [hchars])).1

end SettingsTree.Json
