import SettingsTree.Path.Check
import SettingsTree.Proofs.Path.MemberKey

/-! # Written paths

A well-formed path is the written form of the steps that are read from it. Steps with proper types
and member names are read back from their written form, which is well-formed if it is not too deep.
-/

namespace SettingsTree

/-! ### Pieces -/

namespace Text

/-- Putting a separator before each piece undoes the cutting. -/
theorem flatMap_splitAll (separator : Char) (text : List Char) :
    ((splitAll separator text).flatMap fun piece => separator :: piece) = separator :: text := by
  induction text with
  | nil => rfl
  | cons c rest ih =>
    rw [splitAll]
    split
    · next hc => rw [List.flatMap_cons, ih, hc]; rfl
    · cases hpieces : splitAll separator rest with
      | nil => simp [hpieces] at ih
      | cons piece pieces =>
        rw [hpieces, List.flatMap_cons, List.cons_append, List.cons.injEq] at ih
        simp only [List.flatMap_cons, List.cons_append, ih.2]

theorem splitAll_of_not_mem {separator : Char} {front : List Char} (h : separator ∉ front) :
    splitAll separator front = [front] := by
  induction front with
  | nil => rfl
  | cons c front ih =>
    rw [List.mem_cons, not_or] at h
    rw [splitAll, if_neg (Ne.symm h.1), ih h.2]

theorem splitAll_ne_nil (separator : Char) (text : List Char) : splitAll separator text ≠ [] := by
  cases text with
  | nil => simp [splitAll]
  | cons c rest =>
    rw [splitAll]
    split
    · simp
    · split <;> simp

/-- The pieces of two texts with a separator between them are those of the first text and those of
the second. -/
theorem splitAll_append_separator (separator : Char) (front rest : List Char) :
    splitAll separator (front ++ separator :: rest) =
      splitAll separator front ++ splitAll separator rest := by
  induction front with
  | nil => simp [splitAll]
  | cons c front ih =>
    rw [List.cons_append, splitAll, splitAll, ih]
    split
    · rfl
    · cases hpieces : splitAll separator front with
      | nil => exact absurd hpieces (splitAll_ne_nil separator front)
      | cons piece pieces => rfl

theorem splitAll_append {separator : Char} {front : List Char} (h : separator ∉ front)
    (rest : List Char) :
    splitAll separator (front ++ separator :: rest) = front :: splitAll separator rest := by
  rw [splitAll_append_separator, splitAll_of_not_mem h, List.singleton_append]

end Text

/-! ### Steps -/

/-- A remote name that can stand in a path: it is not empty, and neither a slash nor a colon is in
it. -/
structure Proper (name : String) : Prop where
  ne_empty : name ≠ ""
  slash : '/' ∉ name.toList
  plain : Plain name

instance (name : String) : Decidable (Proper name) :=
  decidable_of_iff (name ≠ "" ∧ '/' ∉ name.toList ∧ ':' ∉ name.toList)
    ⟨fun h => ⟨h.1, h.2.1, h.2.2⟩, fun h => ⟨h.ne_empty, h.slash, h.plain⟩⟩

theorem checkObjectName_eq_ok_iff {name : String} :
    Path.checkObjectName name = .ok () ↔ name ≠ "" ∧ '/' ∉ name.toList := by
  unfold Path.checkObjectName
  by_cases hempty : name = ""
  · simp [hempty]
  · by_cases hslash : '/' ∈ name.toList
    · simp [hempty, hslash]
    · simp [hempty, hslash]

namespace Step

/-- A step that can be read back from a written path: there is no slash in its written form, and no
colon in its type. -/
structure Legible (step : Step) : Prop where
  slash : '/' ∉ step.chars
  plain : Plain step.type

/-- A step with a proper type, to a member whose name a collection accepts. -/
structure Tidy (step : Step) : Prop where
  type : Proper step.type
  name : ∀ name, step.name = some name → Path.checkObjectName name = .ok ()

theorem chars_ofChars (component : List Char) : (ofChars component).chars = component := by
  unfold ofChars
  cases hcut : Text.cutFirst ':' component with
  | none => simp [chars]
  | some parts =>
    obtain ⟨type, name⟩ := parts
    simp [chars, (Text.eq_of_cutFirst hcut).1]

variable {step : Step}

theorem ofChars_chars (plain : Plain step.type) : ofChars step.chars = step := by
  obtain ⟨type, name⟩ := step
  cases name with
  | none => simp [chars, ofChars, Text.cutFirst_eq_none_iff.2 plain]
  | some name => simp [chars, ofChars, Text.cutFirst_append plain]

theorem slash_not_mem_chars_iff : '/' ∉ step.chars ↔
    '/' ∉ step.type.toList ∧ ∀ name, step.name = some name → '/' ∉ name.toList := by
  obtain ⟨type, name⟩ := step
  cases name with
  | none => simp [chars]
  | some name => simp [chars]

theorem Tidy.legible (tidy : step.Tidy) : step.Legible where
  slash := slash_not_mem_chars_iff.2 ⟨tidy.type.slash, fun name hname =>
    (checkObjectName_eq_ok_iff.1 (tidy.name name hname)).2⟩
  plain := tidy.type.plain

theorem componentFlaw?_eq_none_iff {component : List Char} :
    Path.componentFlaw? component = none ↔ (ofChars component).type ≠ "" ∧
      ∀ name, (ofChars component).name = some name → name ≠ "" := by
  unfold Path.componentFlaw? ofChars
  cases hcut : Text.cutFirst ':' component with
  | none => simp
  | some parts =>
    obtain ⟨type, name⟩ := parts
    cases type <;> cases name <;> simp

theorem Tidy.componentFlaw? (tidy : step.Tidy) : Path.componentFlaw? step.chars = none := by
  rw [componentFlaw?_eq_none_iff, ofChars_chars tidy.type.plain]
  exact ⟨tidy.type.ne_empty, fun name hname =>
    (checkObjectName_eq_ok_iff.1 (tidy.name name hname)).1⟩

end Step

/-! ### Paths -/

namespace Path

@[simp] theorem toList_render (path : Path) : (render path).toList = path.chars := by
  rw [render, String.toList_ofList]

theorem render_append (front back : Path) :
    render (front ++ back) = render front ++ render back := by
  apply String.toList_injective
  simp [chars]

theorem join_render (front : Path) (step : Step) :
    join (render front) step = render (front ++ [step]) := by rw [join, render_append]

theorem render_concat (front : Path) (type : String) :
    render (front ++ [⟨type, none⟩]) = render front ++ "/" ++ type := by
  apply String.toList_injective
  simp [chars, Step.chars]

/-- What is read from a text is written with one slash in front. -/
theorem chars_parse {text : String} (hne : text ≠ "") :
    chars (parse text) = '/' :: dropSlash text.toList := by
  rw [parse, if_neg hne, chars, List.flatMap_map]
  simp only [Step.chars_ofChars]
  exact Text.flatMap_splitAll '/' _

theorem render_parse {text : String} {rest : List Char} (h : text.toList = '/' :: rest) :
    render (parse text) = text := by
  have hne : text ≠ "" := by
    rintro rfl
    simp at h
  rw [render, chars_parse hne, h, dropSlash, ← h, String.ofList_toList]

theorem componentsFlaw?_eq_none_iff {room : Nat} {pieces : List (List Char)} :
    componentsFlaw? room pieces = none ↔
      pieces.length ≤ room ∧ ∀ piece ∈ pieces, componentFlaw? piece = none := by
  induction pieces generalizing room with
  | nil => cases room <;> simp [componentsFlaw?]
  | cons piece rest ih =>
    cases room with
    | zero => simp [componentsFlaw?]
    | succ room => cases hpiece : componentFlaw? piece <;> simp [componentsFlaw?, hpiece, ih]

theorem check_eq_ok_iff_flaw? {text : String} : check text = .ok () ↔ flaw? text = none := by
  unfold check
  cases flaw? text <;> simp

/-- A well-formed path begins with a slash, unless it is empty. -/
theorem exists_slash_of_check {text : String} (h : check text = .ok ()) (hne : text ≠ "") :
    ∃ rest, text.toList = '/' :: rest := by
  have hflaw := check_eq_ok_iff_flaw?.1 h
  unfold flaw? at hflaw
  split at hflaw
  · next htext => exact absurd (String.toList_eq_nil_iff.1 htext) hne
  · next rest htext => exact ⟨rest, htext⟩
  · cases hflaw

/-- A well-formed path with at least one step is the written form of its steps. -/
theorem render_parse_of_check {text : String} {first : Step} {rest : Path}
    (h : check text = .ok ()) (hparse : parse text = first :: rest) :
    render (parse text) = text := by
  have hne : text ≠ "" := by
    rintro rfl
    cases hparse
  obtain ⟨tail, htail⟩ := exists_slash_of_check h hne
  exact render_parse htail

variable {path : Path}

theorem splitAll_chars {step : Step} {rest : Path} (h : ∀ other ∈ step :: rest, '/' ∉ other.chars) :
    Text.splitAll '/' (step.chars ++ rest.chars) = (step :: rest).map Step.chars := by
  induction rest generalizing step with
  | nil =>
    simpa [chars] using Text.splitAll_of_not_mem (h step List.mem_cons_self)
  | cons next rest ih =>
    have hrest := ih fun other hother => h other (List.mem_cons_of_mem _ hother)
    rw [List.map_cons, ← hrest, ← Text.splitAll_append (h step List.mem_cons_self)]
    simp [chars]

theorem toList_render_eq {step : Step} {rest : Path}
    (h : ∀ other ∈ step :: rest, '/' ∉ other.chars) :
    ∃ text, (render (step :: rest)).toList = '/' :: text ∧
      Text.splitAll '/' text = (step :: rest).map Step.chars :=
  ⟨step.chars ++ chars rest, by simp [render, chars], splitAll_chars h⟩

/-- Legible steps are read back from their written form. -/
theorem parse_render_of_legible (hne : path ≠ []) (legible : ∀ step ∈ path, step.Legible) :
    parse (render path) = path := by
  obtain ⟨step, rest, rfl⟩ := List.exists_cons_of_ne_nil hne
  obtain ⟨text, htext, hpieces⟩ := toList_render_eq fun other hother => (legible other hother).slash
  have hnonempty : render (step :: rest) ≠ "" := by
    intro h
    simp [h] at htext
  rw [parse, if_neg hnonempty, htext, dropSlash, hpieces, List.map_map]
  calc List.map (Step.ofChars ∘ Step.chars) (step :: rest)
    _ = List.map id (step :: rest) := List.map_congr_left fun other hother =>
      Step.ofChars_chars (legible other hother).plain
    _ = step :: rest := List.map_id _

theorem parse_render (hne : path ≠ []) (tidy : ∀ step ∈ path, step.Tidy) :
    parse (render path) = path :=
  parse_render_of_legible hne fun step hstep => (tidy step hstep).legible

/-- The written form of tidy steps is well-formed, if there are not too many. -/
theorem check_render (tidy : ∀ step ∈ path, step.Tidy) (h : path.length ≤ maxDepth) :
    check (render path) = .ok () := by
  have hflaw : flaw? (render path) = none := by
    cases path with
    | nil => rfl
    | cons step rest =>
      obtain ⟨text, htext, hpieces⟩ :=
        toList_render_eq fun other hother => (tidy other hother).legible.slash
      simp only [flaw?, htext, hpieces]
      refine componentsFlaw?_eq_none_iff.2 ⟨by rwa [List.length_map], fun piece hpiece => ?_⟩
      obtain ⟨other, hother, rfl⟩ := List.mem_map.1 hpiece
      exact (tidy other hother).componentFlaw?
  exact check_eq_ok_iff_flaw?.2 hflaw

end Path

end SettingsTree
