import Mathlib.Data.List.Infix
import SettingsTree.Name.Local
import SettingsTree.Proofs.Text.Pattern
import SettingsTree.Text.Basic

/-! # Where the words of an identifier are separated

Words are separated in two passes, each of which looks for a pattern over the whole text. Together
they look at no more than three characters at a time: an underscore comes between two neighbours
exactly when the second starts a word, which the two and the character behind them decide. So the
first pass, by what it takes, hides nothing from the second.
-/

namespace SettingsTree.Name

open SettingsTree.Text

/-- The last capital of two or more is separated from the others when a small letter follows. -/
def acronymBoundary : Pattern := ⟨[⟨isCapital, true⟩], [⟨isCapital, false⟩, ⟨isSmall, false⟩]⟩

/-- A capital is separated from the small letter or digit before it. -/
def wordBoundary : Pattern := ⟨[⟨fun c => isSmall c || isDigit c, false⟩], [⟨isCapital, false⟩]⟩

/-- A rule for the gap between two neighbours, which may look at the character behind them. -/
abbrev Gap := Char → Char → Option Char → Bool

/-- The first character of a text, with an underscore if the gap behind it is to have one. -/
def marked (gap : Gap) : List Char → List Char
  | c :: d :: rest => if gap c d rest.head? then [c, '_'] else [c]
  | short => short

/-- A text with one underscore in every gap that is to have one, and nowhere else. -/
def underscored (gap : Gap) (text : List Char) : List Char := text.tails.flatMap (marked gap)

/-- A word starts with a capital behind a small letter or a digit, and with the last capital of
several before a small letter. -/
def startsWord : Gap := fun c d after =>
  (isSmall c || isDigit c) && isCapital d || isCapital c && isCapital d && after.any isSmall

/-- The gaps of the first pass. -/
def startsAfterAcronym : Gap := fun c d after => isCapital c && isCapital d && after.any isSmall

/-- The gaps of the second pass. -/
def startsCapitalized : Gap := fun c d _ => (isSmall c || isDigit c) && isCapital d

variable {gap : Gap} {pattern : Pattern} {c d : Char} {rest text run : List Char} {found : Found}

/-! ### Underscores in gaps -/

@[simp] theorem underscored_nil : underscored gap [] = [] := rfl

@[simp] theorem underscored_singleton (c : Char) : underscored gap [c] = [c] := rfl

theorem underscored_cons (gap : Gap) (c : Char) (rest : List Char) :
    underscored gap (c :: rest) = marked gap (c :: rest) ++ underscored gap rest := by
  rw [underscored, List.tails_cons, List.flatMap_cons]
  rfl

theorem underscored_of_gap (h : gap c d rest.head?) :
    underscored gap (c :: d :: rest) = c :: '_' :: underscored gap (d :: rest) := by
  rw [underscored_cons, marked, if_pos h]
  rfl

theorem underscored_of_not_gap (h : ¬gap c d rest.head?) :
    underscored gap (c :: d :: rest) = c :: underscored gap (d :: rest) := by
  rw [underscored_cons, marked, if_neg h]
  rfl

/-- No underscore comes behind a character that no word starts behind. -/
theorem underscored_of_never (h : ∀ d after, ¬gap c d after) (rest : List Char) :
    underscored gap (c :: rest) = c :: underscored gap rest := by
  cases rest with
  | nil => rfl
  | cons d rest => exact underscored_of_not_gap (h d _)

theorem exists_underscored (gap : Gap) (c : Char) (rest : List Char) :
    ∃ more, underscored gap (c :: rest) = c :: more := by
  cases rest with
  | nil => exact ⟨[], rfl⟩
  | cons d rest =>
    by_cases h : gap c d rest.head?
    · exact ⟨_, underscored_of_gap h⟩
    · exact ⟨_, underscored_of_not_gap h⟩

/-! ### Each pass has a rule of its own -/

/-- A pass follows a rule if every way to meet the pattern is an underscore of the rule and the
pattern is met wherever the rule has an underscore. -/
theorem separates_underscored
    (found : ∀ text, ∀ f ∈ pattern.ways text, f.rest.length < text.length ∧
      underscored gap text = f.first ++ '_' :: f.second ++ underscored gap f.rest)
    (met : ∀ c d rest, gap c d rest.head? → pattern.ways (c :: d :: rest) ≠ []) (text : List Char) :
    pattern.Separates text (underscored gap text) := by
  cases hways : pattern.ways text with
  | cons f others =>
    obtain ⟨hshorter, heq⟩ := found text f (hways ▸ List.mem_cons_self)
    rw [heq]
    exact .found hways (separates_underscored found met f.rest)
  | nil =>
    cases text with
    | nil => exact .done hways
    | cons c rest =>
      have hkept : underscored gap (c :: rest) = c :: underscored gap rest := by
        cases rest with
        | nil => rfl
        | cons d rest => exact underscored_of_not_gap fun hgap => met c d rest hgap hways
      rw [hkept]
      exact .pass hways (separates_underscored found met rest)
termination_by text.length

/-! ### The second pass -/

theorem mem_ways_wordBoundary : found ∈ wordBoundary.ways text ↔
    ∃ c d, (isSmall c || isDigit c) ∧ isCapital d ∧ found.first = [c] ∧ found.second = [d] ∧
      text = c :: d :: found.rest := by
  obtain ⟨first, second, rest⟩ := found
  rw [Pattern.mem_ways]
  simp only [wordBoundary, waysAll_singleton]
  constructor
  · rintro ⟨way, hway, more, hmore, heq⟩
    cases heq
    obtain ⟨c, hc, hfirst, rfl⟩ := (Part.mem_ways_single rfl).1 hway
    obtain ⟨d, hd, hsecond, hrest⟩ := (Part.mem_ways_single rfl).1 hmore
    exact ⟨c, d, hc, hd, hfirst, hsecond, by rw [hrest]⟩
  · rintro ⟨c, d, hc, hd, rfl, rfl, rfl⟩
    exact ⟨([c], d :: rest), (Part.mem_ways_single rfl).2 ⟨c, hc, rfl, rfl⟩, ([d], rest),
      (Part.mem_ways_single rfl).2 ⟨d, hd, rfl, rfl⟩, rfl⟩

theorem startsCapitalized_iff {after : Option Char} :
    startsCapitalized c d after ↔ (isSmall c || isDigit c) ∧ isCapital d := by
  rw [startsCapitalized, Bool.and_eq_true]

theorem underscored_after_capital (hc : isCapital c) (rest : List Char) :
    underscored startsCapitalized (c :: rest) = c :: underscored startsCapitalized rest :=
  underscored_of_never (fun _ _ hgap => not_isCapital (startsCapitalized_iff.1 hgap).1 hc) rest

theorem separates_wordBoundary (text : List Char) :
    wordBoundary.Separates text (underscored startsCapitalized text) := by
  refine separates_underscored (fun text f hf => ?_) (fun c d rest hgap => ?_) text
  · obtain ⟨c, d, hc, hd, hfirst, hsecond, rfl⟩ := mem_ways_wordBoundary.1 hf
    refine ⟨Nat.lt_add_of_pos_right Nat.two_pos, ?_⟩
    rw [underscored_of_gap (startsCapitalized_iff.2 ⟨hc, hd⟩), underscored_after_capital hd,
      hfirst, hsecond]
    rfl
  · obtain ⟨hc, hd⟩ := startsCapitalized_iff.1 hgap
    have hmem : ⟨[c], [d], rest⟩ ∈ wordBoundary.ways (c :: d :: rest) :=
      mem_ways_wordBoundary.2 ⟨c, d, hc, hd, rfl, rfl, rfl⟩
    exact List.ne_nil_of_mem hmem

theorem splitWords_eq (text : List Char) :
    splitWords text = underscored startsCapitalized text := by
  fun_induction splitWords text with
  | case1 c d rest hgap ih =>
    have hcapital : isCapital d := (Bool.and_eq_true_iff.1 hgap).2
    rw [ih, underscored_of_gap hgap, underscored_after_capital hcapital]
  | case2 c d rest hgap ih => rw [ih, underscored_of_not_gap hgap]
  | case3 short h =>
    cases short with
    | nil => rfl
    | cons c rest =>
      cases rest with
      | nil => rfl
      | cons d rest => exact absurd rfl (h c d rest)

/-! ### The first pass -/

theorem startsAfterAcronym_iff {after : Option Char} : startsAfterAcronym c d after ↔
    isCapital c ∧ isCapital d ∧ ∃ e, after = some e ∧ isSmall e := by
  rw [startsAfterAcronym, Bool.and_eq_true, Bool.and_eq_true, and_assoc, Option.any_eq_true]

theorem mem_ways_acronymBoundary : found ∈ acronymBoundary.ways text ↔
    found.first ≠ [] ∧ (∀ c ∈ found.first, isCapital c) ∧ ∃ d e, isCapital d ∧ isSmall e ∧
      found.second = [d, e] ∧ text = found.first ++ d :: e :: found.rest := by
  obtain ⟨first, second, rest⟩ := found
  rw [Pattern.mem_ways]
  simp only [acronymBoundary, waysAll_singleton]
  constructor
  · rintro ⟨way, hway, more, hmore, heq⟩
    cases heq
    obtain ⟨hne, hall, rfl⟩ := (Part.mem_ways_repeated rfl).1 hway
    obtain ⟨head, hhead, last, hlast, rfl⟩ := mem_waysAll_cons.1 hmore
    rw [waysAll_singleton] at hlast
    obtain ⟨d, hd, hhead, hrest⟩ := (Part.mem_ways_single rfl).1 hhead
    obtain ⟨e, he, hlast, hleft⟩ := (Part.mem_ways_single rfl).1 hlast
    exact ⟨hne, hall, d, e, hd, he, by rw [hhead, hlast]; rfl, by rw [hrest, hleft]⟩
  · rintro ⟨hne, hall, d, e, hd, he, rfl, rfl⟩
    refine ⟨(first, d :: e :: rest), (Part.mem_ways_repeated rfl).2 ⟨hne, hall, rfl⟩,
      ([d, e], rest), mem_waysAll_cons.2 ?_, rfl⟩
    refine ⟨([d], e :: rest), (Part.mem_ways_single rfl).2 ⟨d, hd, rfl, rfl⟩, ([e], rest), ?_, rfl⟩
    rw [waysAll_singleton]
    exact (Part.mem_ways_single rfl).2 ⟨e, he, rfl, rfl⟩

theorem underscored_no_acronym (h : ∀ e, rest.head? = some e → ¬isSmall e) (c d : Char) :
    underscored startsAfterAcronym (c :: d :: rest) =
      c :: underscored startsAfterAcronym (d :: rest) := by
  apply underscored_of_not_gap
  intro hgap
  obtain ⟨-, -, e, he, hsmall⟩ := startsAfterAcronym_iff.1 hgap
  exact h e he hsmall

theorem underscored_capitals (capitals : ∀ c ∈ run, isCapital c) {a : Char} (ha : isCapital a)
    (hd : isCapital d) (rest : List Char) :
    underscored startsAfterAcronym (run ++ a :: d :: rest) =
      run ++ underscored startsAfterAcronym (a :: d :: rest) := by
  induction run with
  | nil => rfl
  | cons b run ih =>
    obtain ⟨-, hrun⟩ := List.forall_mem_cons.1 capitals
    have hcapital : ∀ e, isCapital e → ¬isSmall e := fun e he h => not_isCapital (by simp [h]) he
    -- what stands behind the next character is a capital of the run or one of the two behind it
    have hkept : underscored startsAfterAcronym (b :: (run ++ a :: d :: rest)) =
        b :: underscored startsAfterAcronym (run ++ a :: d :: rest) := by
      rcases run with _ | ⟨x, _ | ⟨y, run⟩⟩
      · exact underscored_no_acronym (by simpa using hcapital d hd) b a
      · exact underscored_no_acronym (by simpa using hcapital a ha) b x
      · exact underscored_no_acronym (by simpa using hcapital y (hrun y (by simp))) b x
    rw [List.cons_append, hkept, ih hrun, List.cons_append]

theorem underscored_after_other (hc : ¬isCapital c) (rest : List Char) :
    underscored startsAfterAcronym (c :: rest) = c :: underscored startsAfterAcronym rest :=
  underscored_of_never (fun _ _ hgap => hc (startsAfterAcronym_iff.1 hgap).1) rest

theorem underscored_before_other (hd : ¬isCapital d) (c : Char) (rest : List Char) :
    underscored startsAfterAcronym (c :: d :: rest) =
      c :: d :: underscored startsAfterAcronym rest := by
  have hno : ¬startsAfterAcronym c d rest.head? := by
    intro hgap
    exact hd (startsAfterAcronym_iff.1 hgap).2.1
  rw [underscored_of_not_gap hno, underscored_after_other hd]

theorem underscored_acronym (hc : isCapital c) (hd : isCapital d) {e : Char} (he : isSmall e)
    (rest : List Char) : underscored startsAfterAcronym (c :: d :: e :: rest) =
      c :: '_' :: d :: e :: underscored startsAfterAcronym rest := by
  have hother : ¬isCapital e := not_isCapital (by simp [he])
  rw [underscored_of_gap (startsAfterAcronym_iff.2 ⟨hc, hd, e, rfl, he⟩),
    underscored_before_other hother]

theorem separates_acronymBoundary (text : List Char) :
    acronymBoundary.Separates text (underscored startsAfterAcronym text) := by
  refine separates_underscored (fun text f hf => ?_) (fun c d rest hgap => ?_) text
  · obtain ⟨hne, hall, d, e, hd, he, hsecond, rfl⟩ := mem_ways_acronymBoundary.1 hf
    obtain ⟨run, c, hfirst⟩ := (List.eq_nil_or_concat' f.first).resolve_left hne
    rw [hfirst] at hall ⊢
    obtain ⟨hrun, hc⟩ := List.forall_mem_append.1 hall
    rw [List.forall_mem_singleton] at hc
    refine ⟨by simp; omega, ?_⟩
    rw [List.append_assoc, List.singleton_append, underscored_capitals hrun hc hd,
      underscored_acronym hc hd he, hsecond]
    simp
  · obtain ⟨hc, hd, e, he, hsmall⟩ := startsAfterAcronym_iff.1 hgap
    obtain ⟨more, rfl⟩ := List.head?_eq_some_iff.1 he
    have hmem : ⟨[c], [d, e], more⟩ ∈ acronymBoundary.ways (c :: d :: e :: more) := by
      rw [mem_ways_acronymBoundary]
      exact ⟨List.cons_ne_nil _ _, by simpa using hc, d, e, hd, hsmall, rfl, rfl⟩
    exact List.ne_nil_of_mem hmem

/-- A run of capitals before a character that is no capital is separated once or not at all. -/
theorem underscored_run {first second : Char} {before : List Char}
    (capitals : ∀ c ∈ first :: second :: before, isCapital c) (text : List Char) :
    underscored startsAfterAcronym ((first :: second :: before).reverse ++ text) =
      before.reverse ++ underscored startsAfterAcronym (second :: first :: text) := by
  obtain ⟨hfirst, hsecond, hbefore⟩ := by simpa using capitals
  rw [List.reverse_cons, List.reverse_cons, List.append_assoc, List.append_assoc]
  exact underscored_capitals (by simpa using hbefore) hsecond hfirst text

/-- The capitals that were read and not yet written stand before what is left to read. -/
theorem splitAcronymsAfter_eq (capitals : ∀ c ∈ run, isCapital c) (text : List Char) :
    splitAcronymsAfter run text = underscored startsAfterAcronym (run.reverse ++ text) := by
  induction text generalizing run with
  | nil =>
    rcases run with _ | ⟨first, _ | ⟨second, before⟩⟩
    · rfl
    · rfl
    · rw [splitAcronymsAfter, underscored_run capitals, underscored_no_acronym (by simp)]
      simp
  | cons c rest ih =>
    have hwritten : splitAcronymsAfter [] rest = underscored startsAfterAcronym rest := ih (by simp)
    by_cases hc : isCapital c
    · unfold splitAcronymsAfter
      rw [if_pos hc, ih (List.forall_mem_cons.2 ⟨hc, capitals⟩), List.reverse_cons,
        List.append_assoc]
      rfl
    -- the run ends, and its length tells whether it may be an acronym
    rcases run with _ | ⟨first, _ | ⟨second, before⟩⟩
    · simp [splitAcronymsAfter, hc, hwritten, underscored_after_other]
    · simp [splitAcronymsAfter, hc, hwritten, underscored_before_other]
    · rw [splitAcronymsAfter, if_neg hc, hwritten, underscored_run capitals]
      by_cases hsmall : isSmall c
      · obtain ⟨hfirst, hsecond, -⟩ := by simpa using capitals
        rw [underscored_acronym hsecond hfirst hsmall]
        simp [hsmall]
      · rw [underscored_no_acronym (by simpa using hsmall), underscored_before_other hc]
        simp [hsmall]

theorem splitAcronyms_eq (text : List Char) :
    splitAcronyms text = underscored startsAfterAcronym text :=
  splitAcronymsAfter_eq (by simp) text

/-! ### Both passes -/

/-- An underscore of the first pass is passed over by the second. -/
theorem underscored_underscore (c : Char) (rest : List Char) :
    underscored startsCapitalized (c :: '_' :: rest) =
      c :: '_' :: underscored startsCapitalized rest := by
  have hbefore : ¬startsCapitalized c '_' rest.head? := fun hgap =>
    absurd (startsCapitalized_iff.1 hgap).2 (by decide)
  have hbehind : ∀ d after, ¬startsCapitalized '_' d after := fun d after hgap =>
    absurd (startsCapitalized_iff.1 hgap).1 (by decide)
  rw [underscored_of_not_gap hbefore, underscored_of_never hbehind]

/-- The first pass leaves neighbours next to each other that it does not separate, so the second one
finds between them what it would have found before. -/
theorem underscored_underscored (text : List Char) :
    underscored startsCapitalized (underscored startsAfterAcronym text) =
      underscored startsWord text := by
  induction text with
  | nil => rfl
  | cons c rest ih =>
    cases rest with
    | nil => rfl
    | cons d rest =>
      have hword : startsWord c d rest.head? =
        (startsCapitalized c d rest.head? || startsAfterAcronym c d rest.head?) := rfl
      by_cases hacronym : startsAfterAcronym c d rest.head?
      · rw [underscored_of_gap hacronym, underscored_underscore, ih, underscored_of_gap]
        rw [hword, hacronym, Bool.or_true]
      · obtain ⟨more, hmore⟩ := exists_underscored startsAfterAcronym d rest
        rw [underscored_of_not_gap hacronym]
        rw [hmore] at ih ⊢
        by_cases hcapitalized : startsCapitalized c d rest.head?
        · have hfound : startsCapitalized c d more.head? := hcapitalized
          rw [underscored_of_gap hfound, ih, underscored_of_gap]
          rw [hword, hcapitalized, Bool.true_or]
        · have hnone : ¬startsCapitalized c d more.head? := hcapitalized
          rw [underscored_of_not_gap hnone, ih, underscored_of_not_gap]
          simp [hword, hcapitalized, hacronym]

/-- Whatever the two passes make of an identifier, each taking what it finds leftmost and in the
preferred way, is the identifier with one underscore in every gap in which a word starts, and
nothing else. In lower case this is the identifier in snake case. -/
theorem snakeCase_eq_underscored (name : String) :
    (∀ result, (∃ between, acronymBoundary.Separates name.toList between ∧
        wordBoundary.Separates between result) ↔ result = underscored startsWord name.toList) ∧
      splitWords (splitAcronyms name.toList) = underscored startsWord name.toList ∧
      snakeCase name = String.ofList (lower (underscored startsWord name.toList)) := by
  have hpasses : splitWords (splitAcronyms name.toList) = underscored startsWord name.toList := by
    rw [splitAcronyms_eq, splitWords_eq, underscored_underscored]
  refine ⟨fun result => ⟨?_, ?_⟩, hpasses, by rw [snakeCase, hpasses]⟩
  · rintro ⟨between, hfirst, hsecond⟩
    obtain rfl := hfirst.unique (separates_acronymBoundary _)
    rw [hsecond.unique (separates_wordBoundary _), underscored_underscored]
  · rintro rfl
    rw [← underscored_underscored]
    exact ⟨_, separates_acronymBoundary _, separates_wordBoundary _⟩

/-- A run of capitals is one word, but for its last letter before a small one. -/
example : snakeCase "HTTPServerV2D" = "http_server_v2_d" := by decide +kernel

end SettingsTree.Name
