import SettingsTree.Proofs.Path.Parsed

/-! # Which texts are well-formed paths

A text is accepted exactly when it is empty or is the written form of one to 64 steps with proper
types and member names. There are no other steps of this kind that are written in this way, and they
are the ones that are read from the text.
-/

namespace SettingsTree

/-! ### Steps -/

namespace Step

theorem tidy_iff {step : Step} : step.Tidy ↔ Proper step.type ∧
    ∀ name, step.name = some name → name ≠ "" ∧ '/' ∉ name.toList := by
  simp only [← checkObjectName_eq_ok_iff]
  exact ⟨fun tidy => ⟨tidy.type, tidy.name⟩, fun h => ⟨h.1, h.2⟩⟩

/-- A piece without a slash is read as a tidy step exactly when there is nothing wrong with it. -/
theorem tidy_ofChars_iff {piece : List Char} (h : '/' ∉ piece) :
    (ofChars piece).Tidy ↔ Path.componentFlaw? piece = none := by
  have legible := legible_ofChars h
  have hslash := slash_not_mem_chars_iff.1 legible.slash
  rw [tidy_iff, componentFlaw?_eq_none_iff]
  constructor
  · rintro ⟨type, hname⟩
    exact ⟨type.ne_empty, fun name h => (hname name h).1⟩
  · rintro ⟨hne, hname⟩
    exact ⟨⟨hne, hslash.1, legible.plain⟩, fun name h => ⟨hname name h, hslash.2 name h⟩⟩

end Step

/-! ### Paths -/

namespace Path

/-- Up to 64 steps. Neither their types nor their member names are empty or have a slash, and the
types have no colon. -/
structure WellFormed (path : Path) : Prop where
  depth : path.length ≤ 64
  steps : ∀ step ∈ path, Proper step.type ∧
    ∀ name, step.name = some name → name ≠ "" ∧ '/' ∉ name.toList

theorem wellFormed_iff {path : Path} :
    path.WellFormed ↔ path.length ≤ maxDepth ∧ ∀ step ∈ path, step.Tidy := by
  simp only [Step.tidy_iff]
  exact ⟨fun h => ⟨h.depth, h.steps⟩, fun h => ⟨h.1, h.2⟩⟩

theorem check_iff_wellFormed_parse {text : String} {rest : List Char}
    (h : text.toList = '/' :: rest) : check text = .ok () ↔ (parse text).WellFormed := by
  have hflaw : flaw? text = componentsFlaw? maxDepth (Text.splitAll '/' rest) := by
    simp only [flaw?, h]
  have hparse : parse text = (Text.splitAll '/' rest).map Step.ofChars := by
    have hne : text ≠ "" := by
      rintro rfl
      simp at h
    rw [parse, if_neg hne, h, dropSlash]
  have hpieces (piece) (hpiece : piece ∈ Text.splitAll '/' rest) :
      (Step.ofChars piece).Tidy ↔ componentFlaw? piece = none :=
    Step.tidy_ofChars_iff (Text.not_mem_of_mem_splitAll hpiece)
  rw [check_eq_ok_iff_flaw?, hflaw, componentsFlaw?_eq_none_iff, wellFormed_iff, hparse,
    List.length_map, List.forall_mem_map]
  exact and_congr_right fun _ => forall₂_congr fun piece hpiece => (hpieces piece hpiece).symm

theorem WellFormed.check_render {path : Path} (h : path.WellFormed) :
    check (render path) = .ok () :=
  Path.check_render (wellFormed_iff.1 h).2 h.depth

theorem WellFormed.parse_render {path : Path} (h : path.WellFormed) :
    parse (render path) = path := by
  by_cases hne : path = []
  · subst hne
    rfl
  · exact Path.parse_render hne (wellFormed_iff.1 h).2

/-- What is accepted is the written form of the steps that are read from it, which are well-formed.
-/
theorem wellFormed_parse_of_check {text : String} (h : check text = .ok ()) :
    (parse text).WellFormed ∧ render (parse text) = text := by
  by_cases hne : text = ""
  · subst hne
    exact ⟨⟨by decide, by simp [parse]⟩, rfl⟩
  · obtain ⟨rest, hslash⟩ := exists_slash_of_check h hne
    exact ⟨(check_iff_wellFormed_parse hslash).1 h, render_parse hslash⟩

/-- A text is accepted exactly when it is empty or the written form of one to 64 well-formed steps.
What is read from an accepted text are well-formed steps with this written form, and no other
well-formed steps have it. -/
theorem check_eq_ok_iff (text : String) :
    (check text = .ok () ↔ text = "" ∨
      ∃ path, 1 ≤ path.length ∧ path.WellFormed ∧ text = render path) ∧
    (check text = .ok () → (parse text).WellFormed ∧ render (parse text) = text ∧
      ∀ path : Path, path.WellFormed → render path = text → path = parse text) := by
  refine ⟨⟨fun h => ?_, ?_⟩, fun h => ?_⟩
  · obtain ⟨wellFormed, hrender⟩ := wellFormed_parse_of_check h
    rcases Nat.eq_zero_or_pos (parse text).length with hzero | hpos
    · rw [List.length_eq_zero_iff.1 hzero] at hrender
      exact Or.inl hrender.symm
    · exact Or.inr ⟨parse text, hpos, wellFormed, hrender.symm⟩
  · rintro (rfl | ⟨path, -, wellFormed, rfl⟩)
    · rfl
    · exact wellFormed.check_render
  · obtain ⟨wellFormed, hrender⟩ := wellFormed_parse_of_check h
    refine ⟨wellFormed, hrender, fun path hpath hwritten => ?_⟩
    rw [← hwritten, hpath.parse_render]

/-- As many steps as there may be, to members with colons in their names, and one step more. -/
theorem check_eq_ok_iff_members :
    check (render (List.replicate 64 (.member "Region" ":a:b"))) = .ok () ∧
      parse (render (List.replicate 64 (.member "Region" ":a:b"))) =
        List.replicate 64 (.member "Region" ":a:b") ∧
      check (render (List.replicate 65 (.member "Region" ":a:b"))) ≠ .ok () := by
  have tidy (depth : Nat) : ∀ step ∈ List.replicate depth (Step.member "Region" ":a:b"),
      step.Tidy := by
    intro step hstep
    rw [List.eq_of_mem_replicate hstep]
    exact ⟨by decide, by simp [Step.member, checkObjectName]⟩
  have wellFormed : Path.WellFormed (List.replicate 64 (.member "Region" ":a:b")) :=
    wellFormed_iff.2 ⟨by simp [maxDepth], tidy 64⟩
  have haccepted : check (render (List.replicate 64 (.member "Region" ":a:b"))) = .ok () :=
    (check_eq_ok_iff _).1.2 (Or.inr ⟨_, by simp, wellFormed, rfl⟩)
  refine ⟨haccepted, ?_, fun h => ?_⟩
  · exact (((check_eq_ok_iff _).2 haccepted).2.2 _ wellFormed rfl).symm
  · have hdepth := ((check_eq_ok_iff _).2 h).1.depth
    rw [parse_render (by simp) (tidy 65)] at hdepth
    simp at hdepth

end Path

end SettingsTree
