import SettingsTree.Proofs.Json.Alike
import SettingsTree.Proofs.Schema.Format

/-! # Entries that agree

Two entries agree when they are equal up to the order of members, at every depth. What the format
says of an entry it then says of the other one: the fields, the sections and whatever they list.
-/

namespace SettingsTree

namespace Entry

/-- Entries without repeated names that are equal up to the order of members. -/
structure Agree (entry other : Entry) : Prop where
  left : (Json.obj entry).Unique
  right : (Json.obj other).Unique
  alike : Json.Alike (.obj entry) (.obj other)

variable {entry other : Entry} {field : String}

/-! ### Fields -/

theorem Agree.get? (h : entry.Agree other) (field : String) :
    Option.Rel Json.Alike (Keyed.get? field entry) (Keyed.get? field other) := by
  obtain ⟨hnames, hmembers⟩ := h.alike
  rw [Json.alikeMembers_iff] at hmembers
  cases hv : Keyed.get? field entry with
  | none =>
    rw [Keyed.get?_eq_none_iff] at hv
    have hother : Keyed.get? field other = none :=
      Keyed.get?_eq_none_iff.2 fun hmem => hv (hnames.mem_iff.2 hmem)
    rw [hother]
    exact .none
  | some value =>
    obtain ⟨found, hfound, halike⟩ := hmembers _ (Keyed.mem_of_get? hv)
    rw [hfound]
    exact .some halike

/-- What does not tell alike values apart holds of a field in both entries or in neither. -/
theorem Agree.iff_of_alike (h : entry.Agree other) {P : Option Json → Prop}
    (hvalue : ∀ v w, Json.Alike v w → (P (some v) ↔ P (some w))) :
    P (Keyed.get? field entry) ↔ P (Keyed.get? field other) := by
  have hfield := h.get? field
  generalize Keyed.get? field entry = a at hfield
  generalize Keyed.get? field other = b at hfield
  cases hfield with
  | some halike => exact hvalue _ _ halike
  | none => rfl

/-- Fields with a value that is alike to itself only. -/
theorem Agree.field_iff (h : entry.Agree other) {value : Json}
    (hvalue : ∀ v w, Json.Alike v w → (v = value ↔ w = value)) :
    Keyed.get? field entry = some value ↔ Keyed.get? field other = some value := by
  apply h.iff_of_alike (P := fun v => v = some value)
  intro v w halike
  rw [Option.some.injEq, Option.some.injEq, hvalue v w halike]

theorem Agree.none_iff (h : entry.Agree other) :
    Keyed.get? field entry = none ↔ Keyed.get? field other = none := by
  apply h.iff_of_alike (P := fun v => v = none)
  simp

theorem Agree.inner (h : entry.Agree other) {members others : Keyed Json}
    (hm : Keyed.get? field entry = some (.obj members))
    (ho : Keyed.get? field other = some (.obj others)) : Agree members others := by
  have hfield := h.get? field
  rw [hm, ho] at hfield
  cases hfield with
  | some halike =>
    exact ⟨h.left.member (Keyed.mem_of_get? hm), h.right.member (Keyed.mem_of_get? ho), halike⟩

theorem Agree.object_iff (h : entry.Agree other) :
    (∃ members, Keyed.get? field entry = some (.obj members)) ↔
      ∃ others, Keyed.get? field other = some (.obj others) := by
  apply h.iff_of_alike (P := fun v => ∃ members, v = some (.obj members))
  intro v w halike
  simpa using halike.obj_iff

theorem Agree.lacks_iff (h : entry.Agree other) : Lacks field entry ↔ Lacks field other := by
  rw [Lacks, Lacks, h.none_iff, h.field_iff fun _ _ halike => halike.null_iff]

theorem Agree.isCommand_iff (h : entry.Agree other) : entry.IsCommand ↔ other.IsCommand := by
  rw [IsCommand, IsCommand, ← not_iff_not, Bool.not_eq_true, Bool.not_eq_true,
    Keyed.has_eq_false_iff, Keyed.has_eq_false_iff, h.none_iff]

theorem Agree.unflagged_iff (h : entry.Agree other) : entry.Unflagged ↔ other.Unflagged := by
  rw [Unflagged, Unflagged, h.lacks_iff, h.field_iff fun _ _ halike => halike.bool_iff false]

theorem Agree.isCollection_iff (h : entry.Agree other) :
    entry.IsCollection ↔ other.IsCollection := by
  rw [IsCollection, IsCollection, h.isCommand_iff,
    h.field_iff fun _ _ halike => halike.bool_iff true]

theorem Agree.isLeaf_iff (h : entry.Agree other) (tag : String) :
    entry.IsLeaf tag ↔ other.IsLeaf tag := by
  rw [IsLeaf, IsLeaf, h.isCommand_iff, h.unflagged_iff,
    h.field_iff fun _ _ halike => halike.str_iff tag]

theorem Agree.isFixed_iff (h : entry.Agree other) : entry.IsFixed ↔ other.IsFixed := by
  rw [IsFixed, IsFixed, h.isCommand_iff, h.unflagged_iff, h.none_iff]

theorem Agree.isPrimitive_iff (h : entry.Agree other) : entry.IsPrimitive ↔ other.IsPrimitive := by
  simp only [IsPrimitive, h.isLeaf_iff]

theorem Agree.hasOrdinal_iff (h : entry.Agree other) (ordinal : Int64) :
    entry.HasOrdinal ordinal ↔ other.HasOrdinal ordinal := by
  rw [HasOrdinal, HasOrdinal, h.lacks_iff, h.field_iff fun _ _ halike => halike.int_iff _]

theorem Agree.hasQueryFlag_iff (h : entry.Agree other) (query : Bool) :
    entry.HasQueryFlag query ↔ other.HasQueryFlag query := by
  rw [HasQueryFlag, HasQueryFlag, h.field_iff fun _ _ halike => halike.bool_iff query,
    h.field_iff fun _ _ halike => halike.null_iff]

theorem Agree.hasEssentials_iff (h : entry.Agree other) (names : List String) :
    entry.HasEssentials names ↔ other.HasEssentials names := by
  rw [HasEssentials, HasEssentials, h.lacks_iff,
    h.field_iff fun _ _ halike => Json.alike_texts_iff halike names]

/-! ### Sections -/

variable {part : Section} {name : String} {inner : Entry}

/-- Both entries list something under a name, or neither does. -/
theorem Agree.holds_iff (h : entry.Agree other) :
    (∃ inner, Holds part entry name inner) ↔ ∃ found, Holds part other name found := by
  constructor
  · rintro ⟨inner, members, hget, hmem⟩
    obtain ⟨others, hother⟩ := h.object_iff.1 ⟨members, hget⟩
    have hinner := h.inner hget hother
    obtain ⟨found, hfound⟩ :=
      hinner.object_iff.1 ⟨inner, Keyed.get?_of_mem hinner.left.distinct hmem⟩
    exact ⟨found, others, hother, Keyed.mem_of_get? hfound⟩
  · rintro ⟨found, others, hother, hmem⟩
    obtain ⟨members, hget⟩ := h.object_iff.2 ⟨others, hother⟩
    have hinner := h.inner hget hother
    obtain ⟨inner, hvalue⟩ :=
      hinner.object_iff.2 ⟨found, Keyed.get?_of_mem hinner.right.distinct hmem⟩
    exact ⟨inner, members, hget, Keyed.mem_of_get? hvalue⟩

theorem Holds.agree (h : entry.Agree other) {found : Entry} (hholds : Holds part entry name inner)
    (hfound : Holds part other name found) : inner.Agree found := by
  obtain ⟨members, hget, hmem⟩ := hholds
  obtain ⟨others, hother, hmem'⟩ := hfound
  have hinner := h.inner hget hother
  exact hinner.inner (Keyed.get?_of_mem hinner.left.distinct hmem)
    (Keyed.get?_of_mem hinner.right.distinct hmem')

theorem Holds.unique (h : (Json.obj entry).Unique) {found : Entry}
    (hholds : Holds part entry name inner) (hfound : Holds part entry name found) :
    inner = found := by
  obtain ⟨members, hget, hmem⟩ := hholds
  obtain ⟨members', hget', hmem'⟩ := hfound
  rw [hget, Option.some.injEq, Json.obj.injEq] at hget'
  subst hget'
  have hdistinct := (h.member (Keyed.mem_of_get? hget)).distinct
  have hvalue := Keyed.get?_of_mem hdistinct hmem
  rw [Keyed.get?_of_mem hdistinct hmem', Option.some.injEq, Json.obj.injEq] at hvalue
  exact hvalue.symm

theorem ValidSection.of_agree {valid valid' : String → Entry → Prop} (h : entry.Agree other)
    (himp : ∀ name inner found, inner.Agree found → valid name inner → valid' name found)
    (hvalid : ValidSection part entry valid) : ValidSection part other valid' := by
  rcases hvalid with hlacks | ⟨members, hget, hall⟩
  · exact Or.inl (h.lacks_iff.1 hlacks)
  · obtain ⟨others, hother⟩ := h.object_iff.1 ⟨members, hget⟩
    have hinner := h.inner hget hother
    refine Or.inr ⟨others, hother, fun member hmember => ?_⟩
    have hfound := Keyed.get?_of_mem hinner.right.distinct hmember
    have hvalue : Keyed.get? member.1 members ≠ none := by
      rw [ne_eq, hinner.none_iff, hfound]
      simp
    obtain ⟨value, hvalue⟩ := Option.ne_none_iff_exists'.1 hvalue
    obtain ⟨inner, hobj, ⟨ordinal, hordinal⟩, hinside⟩ := hall _ (Keyed.mem_of_get? hvalue)
    dsimp only at hobj
    subst hobj
    obtain ⟨found, hobject⟩ := hinner.object_iff.1 ⟨inner, hvalue⟩
    have hagree := hinner.inner hvalue hobject
    rw [hfound, Option.some.injEq] at hobject
    exact ⟨found, hobject, ⟨ordinal, (hagree.hasOrdinal_iff ordinal).1 hordinal⟩,
      himp _ _ _ hagree hinside⟩

theorem ValidCommand.of_agree (h : entry.Agree other) {options options' : Options}
    (hpath : options.pathArgument = options'.pathArgument)
    (hvalid : entry.ValidCommand options) : other.ValidCommand options' := by
  obtain ⟨⟨query, hquery⟩, harguments, names, hnames, hdeclared⟩ := hvalid
  refine ⟨⟨query, (h.hasQueryFlag_iff query).1 hquery⟩, ?_, names,
    (h.hasEssentials_iff names).1 hnames, ?_⟩
  · refine ValidSection.of_agree h (fun name inner found hagree hinner => ?_) harguments
    exact hinner.imp (fun hname => hname.trans hpath) hagree.isPrimitive_iff.1
  · intro name hname
    exact h.holds_iff.1 (hdeclared name hname)

/-- The induction follows the first entry; what is listed as a child agrees again. -/
theorem ValidMembers.of_agree {options options' : Options}
    (hpath : options.pathArgument = options'.pathArgument) (hvalid : entry.ValidMembers options)
    (h : entry.Agree other) : other.ValidMembers options' := by
  induction hvalid generalizing other with
  | intro hparameters hchildren hcommands _ ih =>
    refine .intro (ValidSection.of_agree h ?_ hparameters) (ValidSection.of_agree h ?_ hchildren)
      (ValidSection.of_agree h ?_ hcommands) ?_
    · intro _ inner found hagree hinner
      exact hagree.isPrimitive_iff.1 hinner
    · intro _ inner found hagree hinner
      exact hinner.imp hagree.isFixed_iff.1 hagree.isCollection_iff.1
    · intro _ inner found hagree hinner
      exact ValidCommand.of_agree hagree hpath hinner
    · intro name found hfound
      obtain ⟨inner, hholds⟩ := h.holds_iff.2 ⟨found, hfound⟩
      exact ih name inner hholds (hholds.agree h hfound)

end Entry

end SettingsTree
