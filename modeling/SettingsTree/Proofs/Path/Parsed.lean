import SettingsTree.Proofs.Path.Written

/-! # Paths that are read from any text

Whatever text is read, the steps have no slash in them and their types no colon. So the type path of
a text has the types of the text, and one more step is read back behind a path exactly when there is
no slash in it.
-/

namespace SettingsTree

/-! ### Pieces -/

namespace Text

variable {separator : Char} {text : List Char}

theorem not_mem_of_mem_splitAll {piece : List Char} (h : piece ∈ splitAll separator text) :
    separator ∉ piece := by
  induction text generalizing piece with
  | nil => simp_all [splitAll]
  | cons c rest ih =>
    rw [splitAll] at h
    split at h
    · rcases List.mem_cons.1 h with rfl | h
      · exact List.not_mem_nil
      · exact ih h
    · next hc =>
      split at h
      · rw [List.mem_singleton.1 h, List.mem_singleton]
        exact Ne.symm hc
      · next first pieces hpieces =>
        rw [hpieces, List.forall_mem_cons] at ih
        rcases List.mem_cons.1 h with rfl | h
        · exact List.not_mem_cons_of_ne_of_not_mem (Ne.symm hc) ih.1
        · exact ih.2 _ h

theorem length_splitAll (separator : Char) (text : List Char) :
    (splitAll separator text).length = text.count separator + 1 := by
  induction text with
  | nil => rfl
  | cons c rest ih =>
    rw [splitAll]
    split
    · next hc => rw [List.length_cons, ih, hc, List.count_cons_self]
    · next hc =>
      rw [List.count_cons_of_ne hc, ← ih]
      split
      · next hpieces => exact absurd hpieces (splitAll_ne_nil separator rest)
      · next hpieces => rw [hpieces]; rfl

end Text

/-! ### Names and steps -/

/-- A name without a slash and without a colon. -/
structure Unbroken (name : String) : Prop where
  slash : '/' ∉ name.toList
  plain : Plain name

instance (name : String) : Decidable (Unbroken name) :=
  decidable_of_iff ('/' ∉ name.toList ∧ ':' ∉ name.toList)
    ⟨fun h => ⟨h.1, h.2⟩, fun h => ⟨h.slash, h.plain⟩⟩

namespace Step

theorem Legible.unbroken {step : Step} (legible : step.Legible) : Unbroken step.type :=
  ⟨(slash_not_mem_chars_iff.1 legible.slash).1, legible.plain⟩

theorem legible_of_unbroken {type : String} (h : Unbroken type) : Legible ⟨type, none⟩ :=
  ⟨h.slash, h.plain⟩

theorem plain_type_ofChars (component : List Char) : Plain (ofChars component).type := by
  unfold ofChars
  cases hcut : Text.cutFirst ':' component with
  | none => simpa [Plain] using Text.cutFirst_eq_none_iff.1 hcut
  | some parts => simpa [Plain] using (Text.eq_of_cutFirst hcut).2

theorem legible_ofChars {component : List Char} (h : '/' ∉ component) :
    (ofChars component).Legible where
  slash := by rwa [chars_ofChars]
  plain := plain_type_ofChars component

end Step

/-! ### Paths -/

namespace Path

variable {text : String}

/-- Every step that is read can be read back. -/
theorem legible_of_mem_parse {step : Step} (h : step ∈ parse text) : step.Legible := by
  rw [parse] at h
  split at h
  · exact absurd h List.not_mem_nil
  · obtain ⟨component, hcomponent, rfl⟩ := List.mem_map.1 h
    exact Step.legible_ofChars (Text.not_mem_of_mem_splitAll hcomponent)

theorem unbroken_of_mem_types {type : String} (h : type ∈ types text) : Unbroken type := by
  obtain ⟨step, hstep, rfl⟩ := List.mem_map.1 h
  exact (legible_of_mem_parse hstep).unbroken

theorem types_renderTypes {path : Path} (h : ∀ step ∈ path, Unbroken step.type) :
    types (renderTypes path) = path.map Step.type := by
  by_cases hne : path = []
  · subst hne
    rfl
  · have hparse : parse (renderTypes path) = path.map fun step => ⟨step.type, none⟩ := by
      refine parse_render_of_legible (by simpa using hne) fun step hstep => ?_
      obtain ⟨other, hother, rfl⟩ := List.mem_map.1 hstep
      exact Step.legible_of_unbroken (h other hother)
    simp [types, hparse, Function.comp_def]

theorem types_typePath (text : String) : types (typePath text) = types text :=
  types_renderTypes fun _ hstep => (legible_of_mem_parse hstep).unbroken

/-- A step behind a path is read as its pieces. -/
theorem parse_join {parent : String} {rest : List Char} (h : parent.toList = '/' :: rest)
    (step : Step) : parse (join parent step) =
      parse parent ++ (Text.splitAll '/' step.chars).map Step.ofChars := by
  have hjoin : (join parent step).toList = '/' :: (rest ++ '/' :: step.chars) := by
    simp [join, render, chars, h]
  have hne {written : String} {tail : List Char} (h : written.toList = '/' :: tail) :
      written ≠ "" := by
    rintro rfl
    simp at h
  rw [parse, if_neg (hne hjoin), hjoin, dropSlash, Text.splitAll_append_separator, List.map_append,
    parse, if_neg (hne h), h, dropSlash]

/-- One more step is read back behind a path exactly when there is no slash in it. -/
theorem parse_join_eq_iff {parent : String} {rest : List Char} {step : Step}
    (h : parent.toList = '/' :: rest) (plain : Plain step.type) :
    parse (join parent step) = parse parent ++ [step] ↔ '/' ∉ step.chars := by
  rw [parse_join h, List.append_cancel_left_eq]
  constructor
  · intro hpieces
    have hlength := congrArg List.length hpieces
    rw [List.length_map, Text.length_splitAll, List.length_singleton, Nat.add_eq_right] at hlength
    exact List.count_eq_zero.1 hlength
  · intro hslash
    rw [Text.splitAll_of_not_mem hslash, List.map_singleton, Step.ofChars_chars plain]

end Path

end SettingsTree
