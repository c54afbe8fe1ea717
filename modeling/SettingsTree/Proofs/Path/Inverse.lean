import SettingsTree.Proofs.Path.Parsed

/-! # Reading and writing paths

Steps are read back from their written form exactly when their types have neither slashes nor
colons and their member names no slashes; names may be empty and may have colons. Writing what was
read from a text gives the text, with a slash in front if it had none. The type path of a text is a
text of the same kind, and is its own type path.
-/

namespace SettingsTree

theorem Step.legible_iff {step : Step} : step.Legible ↔
    Unbroken step.type ∧ ∀ name, step.name = some name → '/' ∉ name.toList := by
  constructor
  · intro legible
    exact ⟨legible.unbroken, (slash_not_mem_chars_iff.1 legible.slash).2⟩
  · rintro ⟨unbroken, hname⟩
    exact ⟨slash_not_mem_chars_iff.2 ⟨unbroken.slash, hname⟩, unbroken.plain⟩

namespace Path

variable {path : Path} {text : String}

theorem parse_render_iff_legible :
    parse (render path) = path ↔ ∀ step ∈ path, step.Legible := by
  constructor
  · intro h step hstep
    rw [← h] at hstep
    exact legible_of_mem_parse hstep
  · intro legible
    by_cases hne : path = []
    · subst hne
      rfl
    · exact parse_render_of_legible hne legible

theorem dropSlash_eq_self {chars : List Char} (h : chars.head? ≠ some '/') :
    dropSlash chars = chars := by
  unfold dropSlash
  split
  · simp at h
  · rfl

/-- Writing what was read puts a slash in front of a text that has some characters but no slash
there. -/
theorem render_parse_eq (text : String) : render (parse text) =
    if text = "" ∨ text.toList.head? = some '/' then text else "/" ++ text := by
  by_cases hempty : text = ""
  · subst hempty
    rfl
  by_cases hslash : text.toList.head? = some '/'
  · rw [if_pos (Or.inr hslash)]
    obtain ⟨rest, hrest⟩ := List.head?_eq_some_iff.1 hslash
    exact render_parse hrest
  · rw [if_neg (by simp [hempty, hslash])]
    apply String.toList_injective
    rw [toList_render, chars_parse hempty, dropSlash_eq_self hslash, String.toList_append]
    rfl

/-! ### Type paths -/

theorem renderTypes_eq (path : Path) :
    renderTypes path = render ((path.map Step.type).map fun type => ⟨type, none⟩) := by
  rw [renderTypes, List.map_map]
  rfl

theorem colon_not_mem_renderTypes (h : ∀ step ∈ path, Plain step.type) :
    ':' ∉ (renderTypes path).toList := by
  rw [renderTypes, toList_render, chars, List.flatMap_map]
  intro hmem
  obtain ⟨step, hstep, hcolon⟩ := List.mem_flatMap.1 hmem
  rcases List.mem_cons.1 hcolon with hcolon | hcolon
  · simp at hcolon
  · exact h step hstep hcolon

theorem typePath_typePath (text : String) : typePath (typePath text) = typePath text := by
  have htypes : (parse (typePath text)).map Step.type = (parse text).map Step.type :=
    types_typePath text
  rw [typePath, renderTypes_eq, htypes, ← renderTypes_eq, ← typePath]

/-! ### The two directions -/

/-- Reading inverts writing exactly for steps whose separators can be told apart, and writing
inverts reading up to a slash in front. The type path of a text has no colon and is its own type
path, and that of a written path is written from the types of its steps. -/
theorem reading_inverts_writing (path : Path) (text : String) :
    (parse (render path) = path ↔ ∀ step ∈ path, Unbroken step.type ∧
        ∀ name, step.name = some name → '/' ∉ name.toList) ∧
      (render (parse text) =
        if text = "" ∨ text.toList.head? = some '/' then text else "/" ++ text) ∧
      (':' ∉ (typePath text).toList ∧ typePath (typePath text) = typePath text) ∧
      ((∀ step ∈ path, Unbroken step.type ∧
          ∀ name, step.name = some name → '/' ∉ name.toList) →
        typePath (render path) = renderTypes path) := by
  simp only [← Step.legible_iff, ← parse_render_iff_legible]
  refine ⟨trivial, render_parse_eq text, ⟨?_, typePath_typePath text⟩, fun hread => ?_⟩
  · exact colon_not_mem_renderTypes fun step hstep => (legible_of_mem_parse hstep).plain
  · rw [typePath, hread]

/-- An empty type, an empty member name, and a member name with colons. -/
theorem reading_inverts_writing_empty_names :
    parse (render [⟨"", none⟩, .member "T" "", .member "" "a:b:"]) =
        [⟨"", none⟩, .member "T" "", .member "" "a:b:"] ∧
      typePath "//T:/:a:b:" = "//T/" ∧ render (parse "T:x//") = "/T:x//" := by
  obtain ⟨hiff, hwritten, -, htypes⟩ :=
    reading_inverts_writing [⟨"", none⟩, .member "T" "", .member "" "a:b:"] "T:x//"
  have hplain : ∀ step ∈ [(⟨"", none⟩ : Step), .member "T" "", .member "" "a:b:"],
      Unbroken step.type ∧ ∀ name, step.name = some name → '/' ∉ name.toList := by
    simp [Step.member]
    decide
  exact ⟨hiff.2 hplain, htypes hplain, hwritten⟩

end Path

end SettingsTree
