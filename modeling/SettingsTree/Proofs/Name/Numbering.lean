import Mathlib.Order.Bounds.Basic
import SettingsTree.Proofs.Name.Siblings

/-! # Which siblings keep their names, and which numbers the others get

Siblings are named one after the other, and what a sibling is called follows from what the ones
before it were called. A sibling keeps a name that it has for itself, and also one that no sibling
before it has or was given; otherwise it gets the least number that is free. This rule admits one
list of names only, the one that is computed. The first of several equal names need not be kept: an
earlier sibling that was numbered may have got just this name.
-/

namespace SettingsTree.Name

variable {names given chosen : List String} {position : Nat} {name result : String}

/-! ### The rule -/

/-- A name that no sibling may get by a number: a single sibling has it, or it is among the names
that were given before. -/
def Occupied (names given : List String) (candidate : String) : Prop :=
  names.count candidate = 1 ∨ candidate ∈ given

/-- The sibling at a position keeps its name: it alone has it, or no sibling before it has it or was
given it. -/
def Keeps (names given : List String) (position : Nat) (name : String) : Prop :=
  names.count name = 1 ∨ name ∉ names.take position ∧ name ∉ given

/-- What the sibling at a position is called, when `given` are the names that the siblings before it
were given. -/
structure Called (names given : List String) (position : Nat) (name result : String) : Prop where
  kept : Keeps names given position name → result = name
  numbered : ¬ Keeps names given position name →
    ∃ number, IsLeast {k | 0 < k ∧ ¬ Occupied names given (numbered name k)} number ∧
      result = numbered name number

/-- Names for all siblings, one for each. -/
structure Numbering (names chosen : List String) : Prop where
  length : chosen.length = names.length
  called : ∀ position name, names[position]? = some name → ∃ result,
    chosen[position]? = some result ∧ Called names (chosen.take position) position name result

/-! ### The rule admits one list only -/

theorem Called.unique {other : String} (h : Called names given position name result)
    (h' : Called names given position name other) : result = other := by
  by_cases hkeeps : Keeps names given position name
  · rw [h.kept hkeeps, h'.kept hkeeps]
  · obtain ⟨number, hleast, rfl⟩ := h.numbered hkeeps
    obtain ⟨other, hleast', rfl⟩ := h'.numbered hkeeps
    rw [hleast.unique hleast']

/-- The induction runs over the siblings that were named: when the names so far agree, so does the
next one. -/
theorem Numbering.unique {other : List String} (h : Numbering names chosen)
    (h' : Numbering names other) : chosen = other := by
  have htake : ∀ n, chosen.take n = other.take n := by
    intro n
    induction n with
    | zero => rfl
    | succ n ih =>
      rw [List.take_add_one, List.take_add_one, ih]
      cases hname : names[n]? with
      | none =>
        rw [List.getElem?_eq_none_iff] at hname
        rw [List.getElem?_eq_none (h.length ▸ hname), List.getElem?_eq_none (h'.length ▸ hname)]
      | some name =>
        obtain ⟨result, hresult, hcalled⟩ := h.called n name hname
        obtain ⟨result', hresult', hcalled'⟩ := h'.called n name hname
        rw [← ih] at hcalled'
        rw [hresult, hresult', hcalled.unique hcalled']
  have hall := htake names.length
  rwa [List.take_of_length_le h.length.le, List.take_of_length_le h'.length.le] at hall

/-! ### The names that are computed -/

theorem mem_single_iff :
    name ∈ names.filter (fun n => names.count n = 1) ↔ names.count name = 1 := by
  rw [List.mem_filter, decide_eq_true_eq, and_iff_right_iff_imp]
  intro hcount
  exact List.count_pos_iff.1 (by omega)

/-- What is handed out at a position depends on the names that were handed out before. -/
theorem getElem?_distinguishAfter (single given names : List String) (position : Nat) :
    (distinguishAfter single given names)[position]? =
      names[position]?.map (distinguish single
        (((distinguishAfter single given names).take position).reverse ++ given)) := by
  induction names generalizing given position with
  | nil => rfl
  | cons name rest ih =>
    cases position with
    | zero => simp [distinguishAfter]
    | succ position => simp [distinguishAfter, ih]

theorem getElem?_distinguishAll (names : List String) (position : Nat) :
    (distinguishAll names)[position]? =
      names[position]?.map (distinguish (names.filter fun n => names.count n = 1)
        ((distinguishAll names).take position).reverse) := by
  rw [distinguishAll, getElem?_distinguishAfter, List.append_nil]

theorem distinguish_of_not_given {single : List String} (h : name ∉ given) :
    distinguish single given name = name := by
  simp [distinguish, h]

theorem called_distinguish (h : name ∈ names.take position → name ∈ given) :
    Called names given position name
      (distinguish (names.filter fun n => names.count n = 1) given.reverse name) := by
  constructor
  · rintro (hsingle | ⟨-, hgiven⟩)
    · exact distinguish_of_single (mem_single_iff.2 hsingle)
    · exact distinguish_of_not_given (by simpa using hgiven)
  · intro hkeeps
    rw [Keeps, not_or, not_and_or, not_not, not_not] at hkeeps
    obtain ⟨hsingle, hbefore⟩ := hkeeps
    have hgiven : name ∈ given := hbefore.elim h id
    have hoccupied (candidate : String) : Occupied names given candidate ↔
        candidate ∈ (names.filter fun n => names.count n = 1) ++ given.reverse := by
      rw [List.mem_append, mem_single_iff, List.mem_reverse, Occupied]
    obtain ⟨hfree, hleast⟩ := leastFree_spec
      ((names.filter fun n => names.count n = 1) ++ given.reverse) (numbered_succ_injective name)
    refine ⟨_, ⟨⟨Nat.succ_pos _, fun hmem => hfree ((hoccupied _).1 hmem)⟩, ?_⟩, ?_⟩
    · rintro k ⟨hpos, hk⟩
      by_contra hlt
      have hbelow := hleast (k - 1) (by omega)
      rw [Nat.sub_add_cancel hpos] at hbelow
      exact hk ((hoccupied _).2 hbelow)
    · simp [distinguish, hsingle, hgiven]

theorem mem_take_iff_getElem? {l : List String} :
    name ∈ l.take position ↔ ∃ before < position, l[before]? = some name := by
  simp only [List.mem_iff_getElem?, List.getElem?_take]
  constructor
  · rintro ⟨before, h⟩
    split at h
    · next hlt => exact ⟨before, hlt, h⟩
    · cases h
  · rintro ⟨before, hlt, h⟩
    exact ⟨before, by rw [if_pos hlt, h]⟩

theorem mem_take_distinguishAll (h : name ∈ names.take position) :
    name ∈ (distinguishAll names).take position := by
  obtain ⟨before, hlt, hname⟩ := mem_take_iff_getElem?.1 h
  by_cases hgiven : name ∈ (distinguishAll names).take before
  · exact List.take_subset_take_left _ hlt.le hgiven
  · refine mem_take_iff_getElem?.2 ⟨before, hlt, ?_⟩
    rw [getElem?_distinguishAll, hname, Option.map_some,
      distinguish_of_not_given (by simpa using hgiven)]

theorem numbering_distinguishAll (names : List String) :
    Numbering names (distinguishAll names) where
  length := distinguishAll_length names
  called position name hname := by
    refine ⟨_, ?_, called_distinguish mem_take_distinguishAll⟩
    rw [getElem?_distinguishAll, hname, Option.map_some]

theorem distinguishAll_of_nodup (nodup : names.Nodup) : distinguishAll names = names := by
  refine (numbering_distinguishAll names).unique ⟨rfl, fun position name hname => ?_⟩
  have hkeeps : Keeps names (names.take position) position name :=
    Or.inl (List.count_eq_one_of_mem nodup (List.mem_of_getElem? hname))
  exact ⟨name, hname, fun _ => rfl, fun hnot => absurd hkeeps hnot⟩

/-- The names that siblings receive are the only ones that follow the rule, one for each sibling,
and they are pairwise different. So nothing changes when siblings are named that have different
names already, or that were named before. -/
theorem numbering_iff_eq_distinguishAll (names : List String) :
    (∀ chosen, Numbering names chosen ↔ chosen = distinguishAll names) ∧
      (distinguishAll names).Nodup ∧ (names.Nodup → distinguishAll names = names) ∧
      distinguishAll (distinguishAll names) = distinguishAll names := by
  refine ⟨fun chosen => ⟨fun h => h.unique (numbering_distinguishAll names), ?_⟩,
    distinguishAll_nodup names, distinguishAll_of_nodup,
    distinguishAll_of_nodup (distinguishAll_nodup names)⟩
  rintro rfl
  exact numbering_distinguishAll names

/-- Of two siblings of one name, the second one does not get the number that a third one has for
itself. -/
theorem numbering_around_single :
    ["a", "b", "a_1"].Nodup ∧ distinguishAll ["a", "b", "a_1"] = ["a", "b", "a_1"] ∧
      Numbering ["a", "a", "a_1"] ["a", "a_2", "a_1"] := by
  have nodup : ["a", "b", "a_1"].Nodup := by decide
  exact ⟨nodup, (numbering_iff_eq_distinguishAll _).2.2.1 nodup,
    ((numbering_iff_eq_distinguishAll ["a", "a", "a_1"]).1 _).2 (by decide +kernel)⟩

/-! ### The first of several equal names -/

/-- A name that was given before the first sibling that has it was given as a numbered one. -/
theorem exists_numbered_of_given (first : name ∉ names.take position)
    (hgiven : name ∈ (distinguishAll names).take position) :
    ∃ before < position, ∃ other number, names[before]? = some other ∧ names.count other ≠ 1 ∧
      0 < number ∧ name = numbered other number ∧ (distinguishAll names)[before]? = some name := by
  obtain ⟨before, hlt, hbefore⟩ := mem_take_iff_getElem?.1 hgiven
  have hat := getElem?_distinguishAll names before
  rw [hbefore] at hat
  obtain ⟨other, hother, -⟩ := Option.map_eq_some_iff.1 hat.symm
  obtain ⟨result, hresult, hcalled⟩ := (numbering_distinguishAll names).called before other hother
  obtain rfl := Option.some.inj (hbefore.symm.trans hresult)
  have hnot : ¬ Keeps names ((distinguishAll names).take before) before other := by
    -- if the earlier sibling kept its name, it would have this name earlier
    intro hkeeps
    rw [← hcalled.kept hkeeps] at hother
    exact first (mem_take_iff_getElem?.2 ⟨before, hlt, hother⟩)
  obtain ⟨number, hleast, heq⟩ := hcalled.numbered hnot
  exact ⟨before, hlt, other, number, hother, fun hone => hnot (Or.inl hone), hleast.1.1, heq,
    hbefore⟩

/-- A name that a single sibling has is kept. The first of several siblings of one name keeps it
exactly if no sibling before it, which does not have its own name for itself either, was numbered to
just this name. -/
theorem first_kept_iff (hname : names[position]? = some name) (first : name ∉ names.take position) :
    (names.count name = 1 → (distinguishAll names)[position]? = some name) ∧
      ((distinguishAll names)[position]? = some name ↔
        ¬ ∃ before < position, ∃ other number, names[before]? = some other ∧
          names.count other ≠ 1 ∧ 0 < number ∧ name = numbered other number ∧
          (distinguishAll names)[before]? = some name) := by
  obtain ⟨result, hresult, hcalled⟩ :=
    (numbering_distinguishAll names).called position name hname
  rw [hresult, Option.some.injEq]
  refine ⟨fun hone => hcalled.kept (Or.inl hone), ?_, fun hnone => ?_⟩
  · rintro rfl ⟨before, hlt, -, -, -, -, -, -, hgiven⟩
    have hbound := (List.getElem?_eq_some_iff.1 hgiven).1
    have heq :=
      (List.getElem?_inj hbound (distinguishAll_nodup names)).1 (hgiven.trans hresult.symm)
    exact hlt.ne heq
  · have hgiven : name ∉ (distinguishAll names).take position :=
      fun hgiven => hnone (exists_numbered_of_given first hgiven)
    exact hcalled.kept (Or.inr ⟨first, hgiven⟩)

/-- The first of two siblings of one name has lost it to an earlier sibling, which was numbered. -/
theorem first_not_kept :
    ["a", "a", "a_1", "a_1"][2]? = some "a_1" ∧ "a_1" ∉ ["a", "a", "a_1", "a_1"].take 2 ∧
      distinguishAll ["a", "a", "a_1", "a_1"] = ["a", "a_1", "a_1_1", "a_1_2"] ∧
      (distinguishAll ["a", "a", "a_1", "a_1"])[2]? ≠ some "a_1" := by
  decide +kernel

theorem first_kept_of_single :
    ["a", "a", "a_1"][2]? = some "a_1" ∧ "a_1" ∉ ["a", "a", "a_1"].take 2 ∧
      (distinguishAll ["a", "a", "a_1"])[2]? = some "a_1" := by
  have hname : ["a", "a", "a_1"][2]? = some "a_1" := rfl
  have first : "a_1" ∉ ["a", "a", "a_1"].take 2 := by decide
  exact ⟨hname, first, (first_kept_iff hname first).1 (by decide)⟩

end SettingsTree.Name
