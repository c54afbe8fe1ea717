/-! # Patterns, and texts that are separated at them

A pattern describes a piece of a text by two groups, each a sequence of character classes. A class
is met by one character, or by one and as many more as possible: as long as the rest of the pattern
can be met at all, taking more is preferred. To separate a text at a pattern is to look for the
pattern from left to right, to put an underscore between the two groups of the way that is preferred
where it is found first, and to go on behind it.
-/

namespace SettingsTree.Text

structure Part where
  allows : Char → Bool
  repeated : Bool := false

/-- How a part is met by the beginning of a text, the preferred way first: what is taken and what is
left. -/
def Part.ways (part : Part) : List Char → List (List Char × List Char)
  | [] => []
  | c :: rest =>
    if part.allows c then
      (if part.repeated then (part.ways rest).map fun way => (c :: way.1, way.2) else []) ++
        [([c], rest)]
    else []

/-- How parts that follow one another are met. An earlier part chooses before a later one. -/
def waysAll : List Part → List Char → List (List Char × List Char)
  | [], text => [([], text)]
  | part :: parts, text =>
    (part.ways text).flatMap fun way =>
      (waysAll parts way.2).map fun more => (way.1 ++ more.1, more.2)

structure Pattern where
  first : List Part
  second : List Part

/-- What the groups of a pattern take from the beginning of a text, and what they leave. -/
structure Found where
  first : List Char
  second : List Char
  rest : List Char

namespace Pattern

/-- How a pattern is met by the beginning of a text, the preferred way first. -/
def ways (pattern : Pattern) (text : List Char) : List Found :=
  (waysAll pattern.first text).flatMap fun way =>
    (waysAll pattern.second way.2).map fun more => ⟨way.1, more.1, more.2⟩

/-- A text and what becomes of it when it is separated at a pattern. -/
inductive Separates (pattern : Pattern) : List Char → List Char → Prop
  | done : pattern.ways [] = [] → Separates pattern [] []
  | pass {c rest result} : pattern.ways (c :: rest) = [] → Separates pattern rest result →
      Separates pattern (c :: rest) (c :: result)
  | found {text found others result} : pattern.ways text = found :: others →
      Separates pattern found.rest result →
      Separates pattern text (found.first ++ '_' :: found.second ++ result)

variable {pattern : Pattern} {text result : List Char}

/-- Nothing is left to choose. -/
theorem Separates.unique {other : List Char} (h : pattern.Separates text result)
    (h' : pattern.Separates text other) : result = other := by
  induction h generalizing other with
  | done hnone =>
    cases h' with
    | done => rfl
    | found hfound => simp [hnone] at hfound
  | pass hnone _ ih =>
    cases h' with
    | pass _ h' => rw [ih h']
    | found hfound => simp [hnone] at hfound
  | found hfound _ ih =>
    cases h' with
    | done hnone => simp [hnone] at hfound
    | pass hnone => simp [hnone] at hfound
    | found hfound' h' =>
      rw [hfound, List.cons.injEq] at hfound'
      obtain ⟨rfl, -⟩ := hfound'
      rw [ih h']

end Pattern

/-! ### What parts take -/

variable {part : Part} {parts : List Part} {text : List Char} {way : List Char × List Char}

theorem Part.ways_of_not_allows {c : Char} (h : ¬part.allows c) (rest : List Char) :
    part.ways (c :: rest) = [] := by
  rw [Part.ways, if_neg h]

theorem Part.mem_ways_single (single : part.repeated = false) :
    way ∈ part.ways text ↔ ∃ c, part.allows c ∧ way.1 = [c] ∧ text = c :: way.2 := by
  constructor
  · intro h
    cases text with
    | nil => simp [Part.ways] at h
    | cons c rest =>
      by_cases hc : part.allows c
      · obtain rfl : way = ([c], rest) := by simpa [Part.ways, hc, single] using h
        exact ⟨c, hc, rfl, rfl⟩
      · simp [Part.ways_of_not_allows hc] at h
  · rintro ⟨c, hc, hway, rfl⟩
    simp [Part.ways, hc, single, Prod.ext_iff, hway]

/-- A repeated part takes one character of its class or more. -/
theorem Part.mem_ways_repeated (repeated : part.repeated = true) :
    way ∈ part.ways text ↔
      way.1 ≠ [] ∧ (∀ c ∈ way.1, part.allows c) ∧ text = way.1 ++ way.2 := by
  obtain ⟨taken, left⟩ := way
  constructor
  · intro h
    induction text generalizing taken with
    | nil => simp [Part.ways] at h
    | cons c rest ih =>
      by_cases hc : part.allows c
      · rw [Part.ways, if_pos hc, if_pos repeated, List.mem_append, List.mem_map,
          List.mem_singleton] at h
        rcases h with ⟨more, hmore, heq⟩ | heq
        · cases heq
          obtain ⟨-, hall, hrest⟩ := ih more.1 hmore
          exact ⟨List.cons_ne_nil _ _, List.forall_mem_cons.2 ⟨hc, hall⟩, congrArg (c :: ·) hrest⟩
        · cases heq
          simpa using hc
      · simp [Part.ways_of_not_allows hc] at h
  · rintro ⟨hne, hall, rfl⟩
    induction taken with
    | nil => exact absurd rfl hne
    | cons c more ih =>
      obtain ⟨hc, hmore⟩ := List.forall_mem_cons.1 hall
      rw [List.cons_append, Part.ways, if_pos hc, if_pos repeated, List.mem_append]
      cases more with
      | nil => exact Or.inr (List.mem_singleton.2 rfl)
      | cons d more =>
        exact Or.inl (List.mem_map.2 ⟨_, ih (List.cons_ne_nil _ _) hmore, rfl⟩)

theorem waysAll_singleton : waysAll [part] text = part.ways text := by
  simp [waysAll]

theorem mem_waysAll_cons : way ∈ waysAll (part :: parts) text ↔
    ∃ head ∈ part.ways text, ∃ more ∈ waysAll parts head.2, (head.1 ++ more.1, more.2) = way := by
  simp only [waysAll, List.mem_flatMap, List.mem_map]

theorem Pattern.mem_ways {pattern : Pattern} {found : Found} : found ∈ pattern.ways text ↔
    ∃ way ∈ waysAll pattern.first text, ∃ more ∈ waysAll pattern.second way.2,
      (⟨way.1, more.1, more.2⟩ : Found) = found := by
  simp only [Pattern.ways, List.mem_flatMap, List.mem_map]

end SettingsTree.Text
