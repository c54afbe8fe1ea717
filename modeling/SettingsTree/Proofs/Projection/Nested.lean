import SettingsTree.Projection.Nesting
import SettingsTree.Proofs.Projection.Entries

/-! # What nesting leaves under each key

Nesting writes the entries of a state one after the other, and members of one type meet in the
object under their type. What stands under a key in the end depends on the entries that went there:
one entry that kept its key, or the members of one type, in the order of the state.
-/

namespace SettingsTree.Projection

variable {types : CollectionTypes} {depth : Nat} {state out : Keyed Json} {key type name : String}

theorem nestedKey?_eq_some_iff :
    nestedKey? types depth key = some (type, name) ↔
      memberOf? type key = some name ∧ types.has depth type = true := by
  rw [nestedKey?, Option.bind_eq_some_iff, memberOf?_eq_some_iff, ← splitMemberKey_eq_some_iff]
  constructor
  · rintro ⟨parts, hsplit, h⟩
    split at h
    · next hhas =>
      cases h
      exact ⟨hsplit, hhas⟩
    · simp at h
  · rintro ⟨hsplit, hhas⟩
    exact ⟨(type, name), hsplit, by simp [hhas]⟩

theorem nestedKey?_of_plain (types : CollectionTypes) (depth : Nat) (plain : Plain key) :
    nestedKey? types depth key = none := by
  rw [nestedKey?, splitMemberKey_eq_none_iff.2 plain]
  rfl

/-- The key under which nesting writes an entry: its type, if the type is a collection there. -/
def nestedName (types : CollectionTypes) (depth : Nat) (key : String) : String :=
  ((nestedKey? types depth key).map Prod.fst).getD key

theorem nestedName_of_plain (types : CollectionTypes) (depth : Nat) (plain : Plain key) :
    nestedName types depth key = key := by
  rw [nestedName, nestedKey?_of_plain types depth plain]
  rfl

theorem nestedKey?_memberKey (plain : Plain type) (registered : types.has depth type = true)
    (name : String) : nestedKey? types depth (memberKey type name) = some (type, name) :=
  nestedKey?_eq_some_iff.2 ⟨memberOf?_memberKey plain name, registered⟩

theorem nestedName_memberKey (plain : Plain type) (registered : types.has depth type = true)
    (name : String) : nestedName types depth (memberKey type name) = type := by
  rw [nestedName, nestedKey?_memberKey plain registered]
  rfl

theorem get?_insertNested (key type name : String) (value : Json) (out : Keyed Json) :
    Keyed.get? key (insertNested type name value out) =
      if type = key then some (.obj (Keyed.insert name value (membersUnder type out)))
      else Keyed.get? key out := Keyed.get?_insert _ _ _ _

theorem membersUnder_insertNested (key type name : String) (value : Json) (out : Keyed Json) :
    membersUnder key (insertNested type name value out) =
      if type = key then Keyed.insert name value (membersUnder type out)
      else membersUnder key out := by
  rw [membersUnder, get?_insertNested]
  split <;> rfl

theorem exists_nestEntries_cons (types : CollectionTypes) (depth : Nat) (e : String × Json)
    (rest out : Keyed Json) :
    ∃ value, nestEntries types depth (e :: rest) out =
      nestEntries types depth rest (Keyed.insert (nestedName types depth e.1) value out) := by
  rw [nestEntries, nestedName]
  cases nestedKey? types depth e.1 with
  | none => exact ⟨_, rfl⟩
  | some parts => exact ⟨_, rfl⟩

theorem distinct_nestEntries (types : CollectionTypes) (depth : Nat) (state : Keyed Json)
    (distinct : Keyed.Distinct out) : Keyed.Distinct (nestEntries types depth state out) := by
  induction state generalizing out with
  | nil => exact distinct
  | cons e rest ih =>
    obtain ⟨value, heq⟩ := exists_nestEntries_cons types depth e rest out
    rw [heq]
    exact ih (distinct.insert _ value)

/-- Nothing is written but what the entries of the state account for. -/
theorem mem_names_nestEntries (h : key ∈ Keyed.names (nestEntries types depth state out)) :
    (∃ e ∈ state, key = nestedName types depth e.1) ∨ key ∈ Keyed.names out := by
  induction state generalizing out with
  | nil => exact Or.inr h
  | cons e rest ih =>
    obtain ⟨value, heq⟩ := exists_nestEntries_cons types depth e rest out
    rw [heq] at h
    rcases ih h with ⟨old, hold, hkey⟩ | h
    · exact Or.inl ⟨old, List.mem_cons_of_mem _ hold, hkey⟩
    · exact (Keyed.mem_names_insert h).imp_left fun hkey => ⟨e, List.mem_cons_self, hkey⟩

/-- What an entry that keeps its key leaves there, when no member comes to the same place. -/
theorem get?_nestEntries (distinct : Keyed.Distinct state)
    (kept : nestedKey? types depth key = none)
    (alone : ∀ e ∈ state, nestedName types depth e.1 = key → e.1 = key) :
    Keyed.get? key (nestEntries types depth state out) =
      ((Keyed.get? key state).map (nestAt types (depth + 1))).or (Keyed.get? key out) := by
  induction state generalizing out with
  | nil => rfl
  | cons e rest ih =>
    obtain ⟨fresh, hrest⟩ := List.nodup_cons.1 distinct
    rw [nestEntries, ih hrest fun x hx => alone x (List.mem_cons_of_mem _ hx), Keyed.get?_cons]
    cases hnested : nestedKey? types depth e.1 with
    | none =>
      rw [Keyed.get?_insert]
      split
      · next h =>
        rw [h] at fresh
        simp [Keyed.get?_eq_none_iff.2 fresh]
      · rfl
    | some parts =>
      -- a member goes to its type, which is neither the key nor the member's own key
      have hkey : e.1 ≠ key := by
        rintro rfl
        simp [kept] at hnested
      have htype : parts.1 ≠ key := by
        intro h
        exact hkey (alone e List.mem_cons_self (by rw [nestedName, hnested]; exact h))
      rw [if_neg hkey, get?_insertNested, if_neg htype]

/-- The members of one type are gathered under it, behind those that are there. -/
theorem get?_nestEntries_type (registered : types.has depth type = true)
    (apart : ∀ e ∈ state, nestedKey? types depth e.1 = none → e.1 ≠ type) :
    Keyed.get? type (nestEntries types depth state out) =
      if listed type (nestAt types (depth + 2)) state = [] then Keyed.get? type out
      else some (.obj (Keyed.insertAll (membersUnder type out)
        (listed type (nestAt types (depth + 2)) state))) := by
  induction state generalizing out with
  | nil => rfl
  | cons e rest ih =>
    rw [nestEntries, ih fun x hx => apart x (List.mem_cons_of_mem _ hx), listed, listed,
      List.filterMap_cons]
    cases hnested : nestedKey? types depth e.1 with
    | none =>
      -- a member of this type would not keep its key
      have hother : memberOf? type e.1 = none := by
        rw [Option.eq_none_iff_forall_ne_some]
        intro name hname
        simp [nestedKey?_eq_some_iff.2 ⟨hname, registered⟩] at hnested
      have hne := apart e List.mem_cons_self hnested
      simp only [hother, membersUnder, Keyed.get?_insert, if_neg hne]
      rfl
    | some parts =>
      obtain ⟨found, name⟩ := parts
      obtain ⟨hmember, -⟩ := nestedKey?_eq_some_iff.1 hnested
      by_cases hfound : found = type
      · subst hfound
        simp only [hmember, get?_insertNested, membersUnder_insertNested]
        split
        · next h => simp [h]
        · simp
      · have hother : memberOf? type e.1 = none := by
          rw [Option.eq_none_iff_forall_ne_some]
          intro other hother
          exact hfound ((keyType_of_memberOf? hmember).symm.trans (keyType_of_memberOf? hother))
        simp only [hother, get?_insertNested, membersUnder_insertNested, if_neg hfound]
        rfl

/-- Nested members are those that the type gathers, if there are any. -/
theorem get?_nestEntries_gather (distinct : Keyed.Distinct state)
    (registered : types.has depth type = true)
    (apart : ∀ e ∈ state, nestedKey? types depth e.1 = none → e.1 ≠ type) :
    Keyed.get? type (nestEntries types depth state []) =
      Keyed.get? type (nonemptyEntry type (gather type (nestAt types (depth + 2)) state)) := by
  rw [get?_nestEntries_type registered apart, ← gather_eq distinct, nonemptyEntry]
  have hgather := Keyed.ofList_of_distinct
    (distinct_gather distinct type (nestAt types (depth + 2)))
  split
  · next h => simp [h]
  · next h =>
    rw [if_neg (by simpa using h), Keyed.get?_cons_self]
    exact congrArg (fun members => some (Json.obj members)) hgather

end SettingsTree.Projection
