import Mathlib.Data.List.Basic
import SettingsTree.Proofs.Path.Inverse

/-! # Parents of paths

A path of at least two steps is its parent with its last step behind it, and a step that is written
behind a path is taken off again. All of this is said of texts: of whatever stands between the
slashes, also of nothing. A path lies below those that it continues.
-/

namespace SettingsTree.Path

variable {front path other : Path} {text parent : String} {step last : Step}

/-! ### Continued paths -/

theorem isBelow_iff : isBelow path other = true ↔ ∃ rest, rest ≠ [] ∧ other = path ++ rest := by
  induction path generalizing other with
  | nil => cases other <;> simp [isBelow]
  | cons step path ih =>
    cases other with
    | nil => simp [isBelow]
    | cons next other =>
      rw [isBelow, Bool.and_eq_true, beq_iff_eq, ih]
      constructor
      · rintro ⟨rfl, rest, hne, rfl⟩
        exact ⟨rest, hne, rfl⟩
      · rintro ⟨rest, hne, h⟩
        obtain ⟨rfl, rfl⟩ := List.cons.inj h
        exact ⟨rfl, rest, hne, rfl⟩

theorem isBelow_concat (front : Path) (last : Step) : isBelow front (front ++ [last]) = true :=
  isBelow_iff.2 ⟨[last], by simp, rfl⟩

theorem not_isBelow_self (path : Path) : isBelow path path = false := by
  rw [← Bool.not_eq_true, isBelow_iff]
  rintro ⟨rest, hne, h⟩
  exact hne (List.self_eq_append_right.1 h)

theorem isBelow_trans {lower : Path} (h : isBelow path other = true)
    (h' : isBelow other lower = true) : isBelow path lower = true := by
  rw [isBelow_iff] at *
  obtain ⟨rest, hne, rfl⟩ := h
  obtain ⟨more, -, rfl⟩ := h'
  exact ⟨rest ++ more, by simp [hne], List.append_assoc ..⟩

/-! ### The last step -/

theorem parse_ne_nil (h : text ≠ "") : parse text ≠ [] := by
  rw [parse, if_neg h]
  simpa using Text.splitAll_ne_nil '/' _

theorem parent?_eq_none_iff : parent? text = none ↔ (parse text).length < 2 := by
  simp [parent?]

theorem exists_concat (h : 2 ≤ (parse text).length) :
    ∃ front last, front ≠ [] ∧ parse text = front ++ [last] := by
  rcases List.eq_nil_or_concat' (parse text) with hnil | ⟨front, last, hconcat⟩
  · simp [hnil] at h
  · refine ⟨front, last, ?_, hconcat⟩
    rintro rfl
    simp [hconcat] at h

theorem parent?_of_concat (hne : front ≠ []) (h : parse text = front ++ [last]) :
    parent? text = some (render front) := by
  have hlength := List.length_pos_iff.2 hne
  rw [parent?, h, List.length_append, List.length_singleton, if_neg (by omega),
    List.dropLast_concat]

theorem last?_of_concat (h : parse text = front ++ [last]) : last? text = some last := by
  rw [last?, h, List.getLast?_concat]

/-- What is left of a text without its last step is read as the steps in front of it. -/
theorem parse_render_of_concat (hne : front ≠ []) (h : parse text = front ++ [last]) :
    parse (render front) = front := by
  refine parse_render_of_legible hne fun step hstep => ?_
  have hmem : step ∈ parse text := by simp [h, hstep]
  exact legible_of_mem_parse hmem

theorem join_of_concat (h : parse text = front ++ [last]) : join (render front) last =
    if text.toList.head? = some '/' then text else "/" ++ text := by
  have hne : text ≠ "" := by
    rintro rfl
    simp [parse] at h
  rw [join_render, ← h, render_parse_eq]
  simp [hne]

/-! ### One more step -/

section

variable (slash : parent.toList.head? = some '/') (legible : step.Legible)

include slash

theorem parse_ne_nil_of_slash : parse parent ≠ [] := by
  apply parse_ne_nil
  rintro rfl
  simp at slash

include legible

theorem parse_join_of_legible : parse (join parent step) = parse parent ++ [step] := by
  obtain ⟨rest, hrest⟩ := List.head?_eq_some_iff.1 slash
  exact (parse_join_eq_iff hrest legible.plain).2 legible.slash

theorem parent?_join : parent? (join parent step) = some parent := by
  rw [parent?_of_concat (parse_ne_nil_of_slash slash) (parse_join_of_legible slash legible),
    render_parse_eq, if_pos (Or.inr slash)]

theorem typePath_join :
    typePath (join parent step) = typePath parent ++ "/" ++ step.type := by
  rw [typePath, parse_join_of_legible slash legible, renderTypes, List.map_append,
    List.map_singleton, render_concat, ← renderTypes, ← typePath]

end

/-! ### The result -/

/-- A text of fewer than two steps has no parent. Any other text is its parent and its last step,
with a slash in front, and lies below its parent. Where the separators can be told apart, a step
behind a path that begins with a slash is its last step, and the path is the parent. To lie below is
to continue by at least one step, which is a strict order. -/
theorem parent_and_last_step :
    (∀ text, (parse text).length < 2 → parent? text = none) ∧
      (∀ text, 2 ≤ (parse text).length → ∃ parent last, parent? text = some parent ∧
        last? text = some last ∧
        join parent last = (if text.toList.head? = some '/' then text else "/" ++ text) ∧
        isBelow (parse parent) (parse text) = true) ∧
      (∀ parent : String, parent.toList.head? = some '/' → ∀ step : Step, Unbroken step.type →
        (∀ name, step.name = some name → '/' ∉ name.toList) →
        parent? (join parent step) = some parent ∧ last? (join parent step) = some step ∧
          typePath (join parent step) = typePath parent ++ "/" ++ step.type) ∧
      (∀ path other, isBelow path other = true ↔ ∃ rest, rest ≠ [] ∧ other = path ++ rest) ∧
      (∀ path, isBelow path path = false) ∧
      ∀ path other lower, isBelow path other = true → isBelow other lower = true →
        isBelow path lower = true := by
  refine ⟨fun text => parent?_eq_none_iff.2, fun text hlength => ?_,
    fun parent slash step unbroken hname => ?_, fun path other => isBelow_iff, not_isBelow_self,
    fun path other lower => isBelow_trans⟩
  · obtain ⟨front, last, hne, h⟩ := exists_concat hlength
    refine ⟨render front, last, parent?_of_concat hne h, last?_of_concat h, join_of_concat h, ?_⟩
    rw [parse_render_of_concat hne h, h]
    exact isBelow_concat front last
  · have legible := Step.legible_iff.2 ⟨unbroken, hname⟩
    exact ⟨parent?_join slash legible, last?_of_concat (parse_join_of_legible slash legible),
      typePath_join slash legible⟩

/-- A single step, a text without a slash in front and with one at the end, and a step without a
type behind a path of nothing but slashes. -/
theorem parent_and_last_step_empty_names :
    parent? "T:x" = none ∧
      (∃ parent last, parent? "T:a:b/" = some parent ∧ last? "T:a:b/" = some last ∧
        join parent last = "/T:a:b/" ∧ isBelow (parse parent) (parse "T:a:b/") = true) ∧
      parent? (join "//" (.member "" "x:")) = some "//" ∧
      typePath (join "//" (.member "" "x:")) = "///" ∧
      isBelow [⟨"", none⟩] [⟨"", none⟩, .member "" "x:"] = true := by
  obtain ⟨hnone, hsome, hjoin, hbelow, -⟩ := parent_and_last_step
  have hstep := hjoin "//" (by decide) (.member "" "x:") (by decide) (by simp [Step.member])
  exact ⟨hnone "T:x" (by decide), hsome "T:a:b/" (by decide), hstep.1,
    hstep.2.2.trans (by decide), (hbelow _ _).2 ⟨[.member "" "x:"], by simp, rfl⟩⟩

end SettingsTree.Path
