import SettingsTree.Proofs.Schema.Acceptance

/-! # The order of a section

A section is read in the order of the ordinals, and equal ordinals keep document order. An entry
without an ordinal is read as if it declared the greatest one. So it comes behind every entry that
declares a smaller ordinal, but it is tied with an entry that declares the greatest, and stays in
front of it when it stands in front of it in the document.
-/

namespace SettingsTree.Entry

/-- An entry has this ordinal in its field. -/
def Declares (entry : Entry) (ordinal : Int64) : Prop :=
  Keyed.get? "ordinal" entry = some (.int ordinal.toInt)

variable {part : Section} {path : String} {entry : Entry} {ordinal : Int64}
  {items listed : List Item}

theorem Declares.not_lacks (h : entry.Declares ordinal) : ¬Lacks "ordinal" entry := by
  rintro (hlacks | hlacks) <;> simp [hlacks, Declares, Json.int] at h

theorem HasOrdinal.eq_last (h : entry.HasOrdinal ordinal) (lacks : Lacks "ordinal" entry) :
    ordinal = lastOrdinal := by
  rcases h with ⟨-, hlast⟩ | hdeclares
  · exact hlast
  · exact absurd lacks (Declares.not_lacks hdeclares)

theorem HasOrdinal.lacks_iff (h : entry.HasOrdinal ordinal) :
    Lacks "ordinal" entry ↔ ¬entry.Declares ordinal := by
  constructor
  · exact fun lacks hdeclares => hdeclares.not_lacks lacks
  · exact fun hnot => (h.resolve_right hnot).1

theorem Lists.hasOrdinal (h : Lists part entry listed) {i : Item} (hi : i ∈ listed) :
    i.entry.HasOrdinal i.ordinal := by
  obtain ⟨_, _, _, hordinal⟩ := h.reads.of_item (mem_sortOn.2 hi)
  exact hordinal

section

variable (lists : Lists part entry listed) (inOrder : InOrder listed items)

include lists inOrder

theorem hasOrdinal_of_inOrder {i : Item} (hi : i ∈ items) : i.entry.HasOrdinal i.ordinal :=
  lists.hasOrdinal (inOrder.perm.mem_iff.1 hi)

/-- Behind an entry without an ordinal there are only items that are read with the last one. -/
theorem last_behind_lacking :
    items.Pairwise fun a b => Lacks "ordinal" a.entry → b.ordinal = lastOrdinal := by
  refine inOrder.sorted.imp_of_mem fun {a b} ha _ hle lacks => ?_
  rw [(hasOrdinal_of_inOrder lists inOrder ha).eq_last lacks] at hle
  exact Int64.le_antisymm (Int64.le_maxValue b.ordinal) hle

/-- What stands behind an entry without an ordinal is decided among the items with the last one,
and these stand as in the document. -/
theorem lacking_behind_iff :
    (items.Pairwise fun a b => Lacks "ordinal" a.entry → Lacks "ordinal" b.entry) ↔
      listed.Pairwise fun a b => Lacks "ordinal" a.entry → ¬b.entry.Declares lastOrdinal := by
  have hordered : (items.Pairwise fun a b => Lacks "ordinal" a.entry → Lacks "ordinal" b.entry) ↔
      (items.filter fun i => i.ordinal = lastOrdinal).Pairwise
        fun a b => Lacks "ordinal" a.entry → Lacks "ordinal" b.entry := by
    refine ⟨List.Pairwise.filter _, fun h => ?_⟩
    refine ((List.pairwise_filter.1 h).and (last_behind_lacking lists inOrder)).imp_of_mem ?_
    rintro a b ha _ ⟨hlast, hbehind⟩ lacks
    have hordinal := (hasOrdinal_of_inOrder lists inOrder ha).eq_last lacks
    exact hlast (decide_eq_true hordinal) (decide_eq_true (hbehind lacks)) lacks
  rw [hordered, inOrder.stable, List.pairwise_filter]
  refine List.Pairwise.iff_of_mem fun {a b} ha hb => ?_
  rw [decide_eq_true_eq, decide_eq_true_eq]
  constructor
  · intro h lacks hdeclares
    have hlast := (lists.hasOrdinal hb).unique (Or.inr hdeclares)
    exact hdeclares.not_lacks (h ((lists.hasOrdinal ha).eq_last lacks) hlast lacks)
  · intro h _ hlast lacks
    have hnot := h lacks
    rw [← hlast] at hnot
    exact (lists.hasOrdinal hb).lacks_iff.2 hnot

end

/-! ### The order -/

/-- A section that is read is a permutation of what the document lists, in the order of the
ordinals, and equal ordinals keep document order. Behind an entry without an ordinal no entry
declares an ordinal but the greatest. None declares that one either exactly when, in the document,
no entry that does stands behind an entry without an ordinal. -/
theorem sortedItems_in_order (h : sortedItems part path entry = .ok items) :
    ∃ listed, Lists part entry listed ∧ InOrder listed items ∧
      (items.Pairwise fun a b => Lacks "ordinal" a.entry →
        ∀ ordinal, b.entry.Declares ordinal → ordinal = Int64.maxValue) ∧
      ((items.Pairwise fun a b => Lacks "ordinal" a.entry → Lacks "ordinal" b.entry) ↔
        listed.Pairwise fun a b => Lacks "ordinal" a.entry → ¬b.entry.Declares Int64.maxValue) := by
  obtain ⟨listed, lists, inOrder⟩ := sortedItems_eq_ok_iff.1 h
  refine ⟨listed, lists, inOrder, ?_, lacking_behind_iff lists inOrder⟩
  refine (last_behind_lacking lists inOrder).imp_of_mem fun {a b} _ hb hlast lacks ordinal hb' => ?_
  exact ((hasOrdinal_of_inOrder lists inOrder hb).unique (Or.inr hb')).symm.trans (hlast lacks)

namespace Unnumbered

def numbered (ordinal : Int64) : Entry := [("ordinal", .int ordinal.toInt)]

/-- Two entries that declare the greatest ordinal, one on either side of an entry without any. -/
def between : Entry := [(Section.children.key, .obj [
  ("Ahead", .obj (numbered Int64.maxValue)), ("Late", .obj []),
  ("Early", .obj (numbered Int64.maxValue)), ("First", .obj (numbered Int64.minValue))])]

/-- The same without the one that stands behind it. -/
def behind : Entry := [(Section.children.key, .obj [
  ("Ahead", .obj (numbered Int64.maxValue)), ("Late", .obj []),
  ("First", .obj (numbered Int64.minValue))])]

theorem lacking_last :
    ∃ first ahead late, sortedItems .children "" behind = .ok [first, ahead, late] ∧
      [first.name, ahead.name, late.name] = ["First", "Ahead", "Late"] ∧
      [first, ahead, late].Pairwise
        fun a b => Lacks "ordinal" a.entry → Lacks "ordinal" b.entry := by
  have hread : sortedItems .children "" behind = .ok [
      ⟨"First", numbered Int64.minValue, Int64.minValue⟩,
      ⟨"Ahead", numbered Int64.maxValue, Int64.maxValue⟩, ⟨"Late", [], lastOrdinal⟩] := by rfl
  refine ⟨_, _, _, hread, rfl, ?_⟩
  obtain ⟨listed, lists, -, -, hiff⟩ := sortedItems_in_order hread
  have hlisted : listed = [⟨"Ahead", numbered Int64.maxValue, Int64.maxValue⟩,
      ⟨"Late", [], lastOrdinal⟩, ⟨"First", numbered Int64.minValue, Int64.minValue⟩] :=
    lists.unique (items_eq_ok_iff.1 (show items .children "" behind = .ok _ from rfl))
  have hfirst : Int64.minValue.toInt ≠ Int64.maxValue.toInt := by decide
  rw [hiff, hlisted]
  simpa [Declares, Lacks, numbered, Keyed.get?, Json.int] using hfirst

/-- An entry without an ordinal comes before one that declares the greatest. -/
theorem lacking_before_greatest :
    ∃ first ahead late early,
      sortedItems .children "" between = .ok [first, ahead, late, early] ∧
      Lacks "ordinal" late.entry ∧ early.entry.Declares Int64.maxValue :=
  ⟨⟨"First", numbered Int64.minValue, Int64.minValue⟩,
    ⟨"Ahead", numbered Int64.maxValue, Int64.maxValue⟩, ⟨"Late", [], lastOrdinal⟩,
    ⟨"Early", numbered Int64.maxValue, Int64.maxValue⟩, rfl, Or.inl rfl, rfl⟩

end Unnumbered

end SettingsTree.Entry
