import Mathlib.Data.List.Nodup
import Mathlib.Data.Option.Basic
import SettingsTree.Json.Printer
import SettingsTree.Proofs.Json.Written
import SettingsTree.Proofs.Keyed
import SettingsTree.Proofs.Ordering
import SettingsTree.Proofs.Pointwise

/-! # Values that differ in the order of members

Two values are alike when they are equal up to the order of the members of objects, at every depth,
and numbers are written alike. Values with the same canonical text are alike.
-/

namespace SettingsTree.Json

mutual
/-- Equality up to the order of members, with numbers compared as they are written. -/
def Alike : Json → Json → Prop
  | null, null => True
  | bool a, bool b => a = b
  | num a, num b => a.chars = b.chars
  | str a, str b => a = b
  | arr as, arr bs => AlikeItems as bs
  | obj as, obj bs => (Keyed.names as).Perm (Keyed.names bs) ∧ AlikeMembers as bs
  | _, _ => False
def AlikeItems : List Json → List Json → Prop
  | [], [] => True
  | a :: as, b :: bs => Alike a b ∧ AlikeItems as bs
  | _, _ => False
/-- Every member has a value that is alike under its name in the other object. -/
def AlikeMembers : List (String × Json) → Keyed Json → Prop
  | [], _ => True
  | a :: as, bs => (∃ b, Keyed.get? a.1 bs = some b ∧ Alike a.2 b) ∧ AlikeMembers as bs
end

theorem alikeItems_iff {as bs : List Json} : AlikeItems as bs ↔ List.Forall₂ Alike as bs := by
  induction as generalizing bs with
  | nil => cases bs <;> simp [AlikeItems]
  | cons a as ih => cases bs <;> simp [AlikeItems, ih]

theorem alikeMembers_iff {as : List (String × Json)} {bs : Keyed Json} :
    AlikeMembers as bs ↔ ∀ a ∈ as, ∃ b, Keyed.get? a.1 bs = some b ∧ Alike a.2 b := by
  induction as with
  | nil => simp [AlikeMembers]
  | cons a as ih => rw [AlikeMembers, ih, List.forall_mem_cons]

/-! ### From canonical texts -/

theorem sameItems_iff {as bs : List Json} : SameItems as bs ↔ List.Forall₂ SameText as bs := by
  induction as generalizing bs with
  | nil => cases bs <;> simp [SameItems]
  | cons a as ih => cases bs <;> simp [SameItems, ih]

theorem sameMembers_iff {as bs : List (String × Json)} :
    SameMembers as bs ↔ List.Forall₂ (fun a b => a.1 = b.1 ∧ SameText a.2 b.2) as bs := by
  induction as generalizing bs with
  | nil => cases bs <;> simp [SameMembers]
  | cons a as ih => cases bs <;> simp [SameMembers, ih, and_assoc]

theorem sortedItems_eq (items : List Json) : sortedItems items = items.map sorted := by
  induction items with
  | nil => rfl
  | cons item rest ih => rw [sortedItems, ih, List.map_cons]

theorem sortedMembers_eq (members : List (String × Json)) :
    sortedMembers members = members.map fun m => (m.1, m.2.sorted) := by
  induction members with
  | nil => rfl
  | cons member rest ih => rw [sortedMembers, ih, List.map_cons]

theorem sortedMembers_append (members others : List (String × Json)) :
    sortedMembers (members ++ others) = sortedMembers members ++ sortedMembers others := by
  simp [sortedMembers_eq]

theorem sortedMembers_flatMap {α : Type} (f : α → List (String × Json)) (l : List α) :
    sortedMembers (l.flatMap f) = l.flatMap fun a => sortedMembers (f a) := by
  simp [sortedMembers_eq, List.map_flatMap]

theorem sortedMembers_perm {members others : List (String × Json)} (h : members.Perm others) :
    (sortedMembers members).Perm (sortedMembers others) := by
  rw [sortedMembers_eq, sortedMembers_eq]
  exact h.map _

theorem mem_sorted_iff {members : List (String × Json)} {m : String × Json} :
    m ∈ sortOn (fun a b => decide (a.1 ≤ b.1)) (sortedMembers members) ↔
      ∃ n ∈ members, (n.1, n.2.sorted) = m := by
  rw [mem_sortOn, sortedMembers_eq, List.mem_map]

theorem names_sorted (members : List (String × Json)) :
    (Keyed.names (sortOn (fun a b => decide (a.1 ≤ b.1)) (sortedMembers members))).Perm
      (Keyed.names members) := by
  have hperm := (sortOn_perm (fun a b => decide (a.1 ≤ b.1)) (sortedMembers members)).map Prod.fst
  rw [sortedMembers_eq, List.map_map] at hperm
  rw [sortedMembers_eq]
  exact hperm

/-- Objects have one sorted form when their members, each in sorted form, differ in order only. -/
theorem sorted_obj_congr {as bs : Keyed Json} (distinct : Keyed.Distinct as)
    (perm : (sortedMembers as).Perm (sortedMembers bs)) : (obj as).sorted = (obj bs).sorted := by
  rw [sorted, sorted]
  congr 1
  refine sortOn_key_congr Prod.fst perm (List.inj_on_of_nodup_map ?_)
  simpa [sortedMembers_eq, Keyed.Distinct, Keyed.names, Function.comp_def] using distinct

theorem sortedMembers_perm_of_sorted {as bs : Keyed Json} (h : (obj as).sorted = (obj bs).sorted) :
    (sortedMembers as).Perm (sortedMembers bs) := by
  rw [sorted, sorted, obj.injEq] at h
  have hperm := (sortOn_perm (fun a b => decide (a.1 ≤ b.1)) (sortedMembers as)).symm
  rw [h] at hperm
  exact hperm.trans (sortOn_perm _ _)

theorem get?_sortedMembers (name : String) (members : Keyed Json) :
    Keyed.get? name (sortedMembers members) = (Keyed.get? name members).map sorted := by
  rw [sortedMembers_eq, Keyed.get?_map]

theorem distinct_sortedMembers {members : Keyed Json} (distinct : Keyed.Distinct members) :
    Keyed.Distinct (sortedMembers members) := by
  simpa [sortedMembers_eq, Keyed.Distinct, Keyed.names, Function.comp_def] using distinct

/-- Objects have one sorted form exactly when what is found under each name has. -/
theorem sorted_obj_iff {as bs : Keyed Json} (h : Keyed.Distinct as) (h' : Keyed.Distinct bs) :
    (obj as).sorted = (obj bs).sorted ↔
      ∀ name, (Keyed.get? name as).map sorted = (Keyed.get? name bs).map sorted := by
  simp only [← get?_sortedMembers]
  rw [← Keyed.perm_iff_get? (distinct_sortedMembers h) (distinct_sortedMembers h')]
  exact ⟨sortedMembers_perm_of_sorted, sorted_obj_congr h⟩

theorem sorted_field?_congr {v w : Json} (hv : v.Unique) (hw : w.Unique)
    (h : v.sorted = w.sorted) (name : String) :
    (v.field? name).map sorted = (w.field? name).map sorted := by
  cases v with
  | obj as =>
    cases w with
    | obj bs => exact (sorted_obj_iff hv.distinct hw.distinct).1 h name
    | _ => simp [sorted] at h
  | _ => cases w <;> simp_all [sorted, field?, members?]

theorem alike_of_sameText {v w : Json} (hv : v.Unique) (hw : w.Unique)
    (h : SameText v.sorted w.sorted) : Alike v w := by
  induction v generalizing w with
  | arr as ih =>
    cases w with
    | arr bs =>
      rw [sorted, sorted, SameText, sameItems_iff, sortedItems_eq, sortedItems_eq,
        List.forall₂_map_left_iff, List.forall₂_map_right_iff] at h
      rw [Alike, alikeItems_iff]
      have hv := uniqueItems_iff.1 hv
      have hw := uniqueItems_iff.1 hw
      exact forall₂_imp_of_mem h fun a ha b hb hab => ih a ha (hv a ha) (hw b hb) hab
    | _ => simp [sorted, SameText] at h
  | obj as ih =>
    cases w with
    | obj bs =>
      rw [sorted, sorted, SameText, sameMembers_iff] at h
      have hnames : Keyed.names (sortOn (fun a b => decide (a.1 ≤ b.1)) (sortedMembers as)) =
          Keyed.names (sortOn (fun a b => decide (a.1 ≤ b.1)) (sortedMembers bs)) := by
        rw [Keyed.names, Keyed.names, ← List.forall₂_eq_eq_eq, List.forall₂_map_left_iff,
          List.forall₂_map_right_iff]
        exact h.imp fun _ _ hab => hab.1
      rw [Alike, alikeMembers_iff]
      constructor
      · have hperm := (names_sorted as).symm
        rw [hnames] at hperm
        exact hperm.trans (names_sorted bs)
      · intro a ha
        obtain ⟨t, ht, hname, htext⟩ := exists_of_mem_left h (mem_sorted_iff.2 ⟨a, ha, rfl⟩)
        obtain ⟨b, hb, rfl⟩ := mem_sorted_iff.1 ht
        dsimp only at hname htext
        refine ⟨b.2, ?_, ih a ha (hv.member ha) (hw.member hb) htext⟩
        rw [hname]
        exact Keyed.get?_of_mem hw.distinct hb
    | _ => simp [sorted, SameText] at h
  | _ => cases w <;> simp_all [sorted, SameText, Alike]

theorem alike_of_canonical {v w : Json} (hv : v.Unique) (hw : w.Unique)
    (h : v.canonical = w.canonical) : Alike v w :=
  alike_of_sameText hv hw (sameText_of_compact h)

/-! ### What alike values share -/

variable {v w : Json}

theorem Alike.null_iff (h : Alike v w) : v = .null ↔ w = .null := by
  cases v <;> cases w <;> simp [Alike] at h ⊢

theorem Alike.bool_iff (h : Alike v w) (value : Bool) : v = .bool value ↔ w = .bool value := by
  cases v <;> cases w <;> simp [Alike] at h ⊢
  rw [h]

theorem Alike.str_iff (h : Alike v w) (text : String) : v = .str text ↔ w = .str text := by
  cases v <;> cases w <;> simp [Alike] at h ⊢
  rw [h]

/-- An integer is alike to itself only: no double is written like an integer. -/
theorem Alike.int_iff (h : Alike v w) (n : Int) : v = .int n ↔ w = .int n := by
  cases v <;> cases w <;> simp [Alike, int] at h ⊢
  next a b =>
    cases a with
    | int a =>
      cases b with
      | int b => rw [Number.int_chars_injective h]
      | double y => exact absurd h (Number.int_chars_ne_double_chars a y)
    | double x =>
      cases b with
      | int b => exact absurd h.symm (Number.int_chars_ne_double_chars b x)
      | double y => simp

theorem alike_texts_iff (h : Alike v w) (texts : List String) :
    v = .arr (texts.map .str) ↔ w = .arr (texts.map .str) := by
  cases v <;> cases w <;> simp only [Alike, reduceCtorEq, arr.injEq] at h ⊢
  next as bs =>
    rw [alikeItems_iff] at h
    induction h generalizing texts with
    | nil => rfl
    | cons hab _ ih =>
      cases texts with
      | nil => simp
      | cons text texts => rw [List.map_cons, List.cons.injEq, List.cons.injEq, hab.str_iff, ih]

theorem Alike.obj_iff (h : Alike v w) : (∃ as, v = .obj as) ↔ ∃ bs, w = .obj bs := by
  cases v <;> cases w <;> simp [Alike] at h ⊢

end SettingsTree.Json
