import SettingsTree.Proofs.Json.Alike
import SettingsTree.Schema.Compile

/-! # What the canonical text tells apart

Sorting gives the names of an object one order, whatever order they stood in. So alike values have
the same canonical text, and since that text determines the value up to the order of members, no
other values share it. The digest of a value is computed from this text alone.
-/

namespace SettingsTree.Json

/-! ### Values that are written alike -/

theorem compactItems_congr {items others : List Json}
    (h : List.Forall₂ (fun a b => a.compactChars = b.compactChars) items others) :
    compactItems items = compactItems others := by
  induction h with
  | nil => rfl
  | cons hab _ ih => rw [compactItems, compactItems, hab, ih]

theorem compactMembers_congr {members others : List (String × Json)}
    (h : List.Forall₂ (fun a b => a.1 = b.1 ∧ a.2.compactChars = b.2.compactChars) members
      others) : compactMembers members = compactMembers others := by
  induction h with
  | nil => rfl
  | cons hab _ ih => rw [compactMembers, compactMembers, hab.1, hab.2, ih]

theorem compactChars_of_sameText {v w : Json} (h : SameText v w) :
    v.compactChars = w.compactChars := by
  induction v generalizing w with
  | arr as ih =>
    cases w with
    | arr bs =>
      rw [SameText, sameItems_iff] at h
      have hchars := forall₂_imp_of_mem h fun a ha b _ hab => ih a ha hab
      cases hchars with
      | nil => rfl
      | cons hab hrest => rw [compactChars, compactChars, hab, compactItems_congr hrest]
    | _ => simp [SameText] at h
  | obj as ih =>
    cases w with
    | obj bs =>
      rw [SameText, sameMembers_iff] at h
      have hchars := forall₂_imp_of_mem h fun a ha b _ hab => And.intro hab.1 (ih a ha hab.2)
      cases hchars with
      | nil => rfl
      | cons hab hrest =>
        rw [compactChars, compactChars, hab.1, hab.2, compactMembers_congr hrest]
    | _ => simp [SameText] at h
  | _ => cases w <;> simp_all [SameText, compactChars, scalarChars]

/-! ### From alike values -/

/-- Sorted names do not depend on the order they stood in. -/
theorem names_sorted_eq {as bs : Keyed Json} (h : (Keyed.names as).Perm (Keyed.names bs)) :
    Keyed.names (sortOn (fun a b => decide (a.1 ≤ b.1)) (sortedMembers as)) =
      Keyed.names (sortOn (fun a b => decide (a.1 ≤ b.1)) (sortedMembers bs)) := by
  refine List.Perm.eq_of_pairwise (fun a b _ _ => String.le_antisymm)
    (List.pairwise_map.2 (sortOn_key_pairwise Prod.fst _))
    (List.pairwise_map.2 (sortOn_key_pairwise Prod.fst _)) ?_
  exact ((names_sorted as).trans h).trans (names_sorted bs).symm

theorem forall₂_of_names {R : Json → Json → Prop} {as bs : Keyed Json}
    (names : Keyed.names as = Keyed.names bs)
    (h : ∀ a ∈ as, ∀ b ∈ bs, a.1 = b.1 → R a.2 b.2) :
    List.Forall₂ (fun a b => a.1 = b.1 ∧ R a.2 b.2) as bs := by
  have hnames : List.Forall₂ (fun a b : String × Json => a.1 = b.1) as bs := by
    rwa [Keyed.names, Keyed.names, ← List.forall₂_eq_eq_eq, List.forall₂_map_left_iff,
      List.forall₂_map_right_iff] at names
  exact forall₂_imp_of_mem hnames fun a ha b hb hab => ⟨hab, h a ha b hb hab⟩

theorem sameText_of_alike {v w : Json} (hw : w.Unique) (h : Alike v w) :
    SameText v.sorted w.sorted := by
  induction v generalizing w with
  | arr as ih =>
    cases w with
    | arr bs =>
      rw [Alike, alikeItems_iff] at h
      have hw := uniqueItems_iff.1 hw
      rw [sorted, sorted, SameText, sameItems_iff, sortedItems_eq, sortedItems_eq,
        List.forall₂_map_left_iff, List.forall₂_map_right_iff]
      exact forall₂_imp_of_mem h fun a ha b hb hab => ih a ha (hw b hb) hab
    | _ => simp [Alike] at h
  | obj as ih =>
    cases w with
    | obj bs =>
      obtain ⟨hnames, hmembers⟩ := h
      rw [alikeMembers_iff] at hmembers
      rw [sorted, sorted, SameText, sameMembers_iff]
      refine forall₂_of_names (names_sorted_eq hnames) fun s hs t ht hst => ?_
      obtain ⟨a, ha, rfl⟩ := mem_sorted_iff.1 hs
      obtain ⟨b, hb, rfl⟩ := mem_sorted_iff.1 ht
      obtain ⟨value, hvalue, halike⟩ := hmembers a ha
      dsimp only at hst ⊢
      rw [hst, Keyed.get?_of_mem hw.distinct hb, Option.some.injEq] at hvalue
      subst hvalue
      exact ih a ha (hw.member hb) halike
    | _ => simp [Alike] at h
  | _ => cases w <;> simp_all [sorted, SameText, Alike]

theorem canonical_of_alike {v w : Json} (hw : w.Unique) (h : Alike v w) :
    v.canonical = w.canonical := by
  rw [canonical, canonical, compact, compact, compactChars_of_sameText (sameText_of_alike hw h)]

theorem digest_of_alike {v w : Json} (hw : w.Unique) (h : Alike v w) : v.digest = w.digest := by
  rw [digest, digest, canonical_of_alike hw h]

/-- Values have the same canonical text exactly when they are alike. So values with one digest are
alike, unless the digest takes two texts for one. An integer is not like any double, and doubles of
different signs are not alike, not even the two zeros. -/
theorem canonical_eq_iff_alike {v w : Json} (hv : v.Unique) (hw : w.Unique) :
    (v.canonical = w.canonical ↔ Alike v w) ∧
      (v.digest = w.digest ↔
        Alike v w ∨ (v.canonical ≠ w.canonical ∧
          Digest.ofText v.canonical = Digest.ofText w.canonical)) ∧
      (∀ n x, ¬Alike (.num (.int n)) (.num (.double x))) ∧
      ∀ x y, x.isNegative ≠ y.isNegative → ¬Alike (.num (.double x)) (.num (.double y)) := by
  have hcanonical : v.canonical = w.canonical ↔ Alike v w :=
    ⟨alike_of_canonical hv hw, canonical_of_alike hw⟩
  refine ⟨hcanonical, ?_, Number.int_chars_ne_double_chars, fun x y =>
    Number.double_chars_ne_of_sign⟩
  constructor
  · intro h
    by_cases heq : v.canonical = w.canonical
    · exact Or.inl (hcanonical.1 heq)
    · exact Or.inr ⟨heq, h⟩
  · rintro (halike | ⟨-, h⟩)
    · exact digest_of_alike hw halike
    · exact h

/-! ### Two orders of one document -/

namespace Reordered

def first : Json :=
  .obj [("low", .num (.double ⟨0⟩)), ("high", .arr [.obj [("b", .null), ("a", int 1)]])]

def second : Json :=
  .obj [("high", .arr [.obj [("a", int 1), ("b", .null)]]), ("low", .num (.double ⟨0⟩))]

def signed : Json :=
  .obj [("high", .arr [.obj [("a", int 1), ("b", .null)]]),
    ("low", .num (.double ⟨0x8000000000000000⟩))]

theorem unique : first.Unique ∧ second.Unique ∧ signed.Unique := by
  simp [first, second, signed, int, Unique, UniqueItems, UniqueMembers, Keyed.Distinct]

theorem alike : Alike first second := by
  refine ⟨List.Perm.swap .., ⟨_, rfl, rfl⟩, ⟨_, rfl, ⟨List.Perm.swap .., ?_⟩, trivial⟩, trivial⟩
  exact ⟨⟨_, rfl, trivial⟩, ⟨_, rfl, rfl⟩, trivial⟩

end Reordered

/-- Both orders have one text and one digest; the sign of a zero makes another text. -/
theorem canonical_eq_iff_alike_reordered :
    Reordered.first.canonical = Reordered.second.canonical ∧
      Reordered.first.digest = Reordered.second.digest ∧
      Reordered.second.canonical ≠ Reordered.signed.canonical := by
  obtain ⟨hfirst, hsecond, hsigned⟩ := Reordered.unique
  obtain ⟨htext, hdigest, -, hzero⟩ := canonical_eq_iff_alike hfirst hsecond
  refine ⟨htext.2 Reordered.alike, hdigest.2 (Or.inl Reordered.alike), fun h => ?_⟩
  obtain ⟨-, hmembers⟩ := (canonical_eq_iff_alike hsecond hsigned).1.1 h
  obtain ⟨value, hvalue, halike⟩ :=
    alikeMembers_iff.1 hmembers ("low", .num (.double ⟨0⟩)) (by simp)
  cases hvalue
  exact hzero ⟨0⟩ ⟨0x8000000000000000⟩ (by decide) halike

end SettingsTree.Json
