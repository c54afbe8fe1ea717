import SettingsTree.Proofs.Projection.Flattened

/-! # States in nested form

A state is in nested form when none of its keys can be nested any more, at any depth, where what
stands under a key is one level deeper than the key. Nesting leaves such a state as it is, key order
included. Whatever it makes is in nested form, as long as the names of members have no colon: the
state of a member is nested two levels down and stands there, under its type and its name.
-/

namespace SettingsTree.Projection

/-- A state at the given depth without keys to nest. -/
inductive InNestedForm (types : CollectionTypes) : Nat → Json → Prop
  | value {depth value} : value.members? = none → InNestedForm types depth value
  | object {depth members} : Keyed.Distinct members →
      (∀ m ∈ members, nestedKey? types depth m.1 = none) →
      (∀ m ∈ members, InNestedForm types (depth + 1) m.2) → InNestedForm types depth (.obj members)

/-- No member that is nested has a name with a colon, in any object that is visited. -/
def PlainNames (types : CollectionTypes) (depth : Nat) (state : Json) : Prop :=
  ∀ below inner, Visits types depth state below inner →
    ∀ entry ∈ inner, ∀ parts ∈ nestedKey? types below entry.1, Plain parts.2

variable {types : CollectionTypes} {depth : Nat} {state out members : Keyed Json}
  {key type name : String} {entry : String × Json} {value : Json}

theorem nestAt_of_value (h : value.members? = none) : nestAt types depth value = value := by
  cases value with
  | obj members => simp [Json.members?] at h
  | _ => simp [nestAt]

theorem plainNames_of_value (h : value.members? = none) : PlainNames types depth value :=
  fun _ _ hvisits => absurd hvisits (not_visits_of_value h)

theorem plainNames_obj_iff : PlainNames types depth (.obj state) ↔ ∀ e ∈ state,
    (∀ parts ∈ nestedKey? types depth e.1, Plain parts.2) ∧
      PlainNames types (innerDepth types depth e.1) e.2 := by
  rw [PlainNames, forall_visits_obj_iff, ← forall₂_and]
  rfl

/-! ### States that stay -/

theorem nestEntries_of_kept (h : ∀ m ∈ members, nestedKey? types depth m.1 = none)
    (out : Keyed Json) : nestEntries types depth members out =
      Keyed.insertAll out (members.map fun m => (m.1, nestAt types (depth + 1) m.2)) := by
  induction members generalizing out with
  | nil => simp [nestEntries]
  | cons m rest ih =>
    rw [List.forall_mem_cons] at h
    rw [nestEntries_cons, ih h.2, nestEntry, h.1]
    rfl

theorem nestAt_of_nestedForm (h : InNestedForm types depth value) :
    nestAt types depth value = value := by
  induction h with
  | value h => exact nestAt_of_value h
  | @object depth members distinct kept _ ih =>
    have hsame : (members.map fun m => (m.1, nestAt types (depth + 1) m.2)) = members := by
      rw [List.map_congr_left fun m hm => congrArg (Prod.mk m.1) (ih m hm)]
      exact List.map_id members
    rw [nestAt, nestEntries_of_kept kept, hsame]
    exact congrArg Json.obj (Keyed.ofList_of_distinct distinct)

/-! ### What nesting makes -/

namespace InNestedForm

theorem empty (types : CollectionTypes) (depth : Nat) : InNestedForm types depth (.obj []) :=
  .object List.nodup_nil (by simp) (by simp)

theorem insert (form : InNestedForm types depth (.obj out))
    (kept : nestedKey? types depth key = none) (inner : InNestedForm types (depth + 1) value) :
    InNestedForm types depth (.obj (Keyed.insert key value out)) := by
  cases form with
  | value h => cases h
  | object distinct hkept hinner =>
    refine .object (distinct.insert key value) (fun m hm => ?_) fun m hm => ?_
    · rcases Keyed.mem_insert hm with rfl | hm
      · exact kept
      · exact hkept m hm
    · rcases Keyed.mem_insert hm with rfl | hm
      · exact inner
      · exact hinner m hm

/-- What stands under a key is one level deeper, also when it counts as an empty object. -/
theorem under (form : InNestedForm types depth (.obj out)) (type : String) :
    InNestedForm types (depth + 1) (.obj (membersUnder type out)) := by
  cases form with
  | value h => cases h
  | object _ _ hinner =>
    rw [membersUnder]
    cases hthere : Keyed.get? type out with
    | none => exact empty types (depth + 1)
    | some there =>
      cases there with
      | obj members => exact hinner _ (Keyed.mem_of_get? hthere)
      | _ => exact empty types (depth + 1)

theorem nestEntry (form : InNestedForm types depth (.obj out))
    (plain : ∀ parts ∈ nestedKey? types depth entry.1, Plain parts.2)
    (inner : InNestedForm types (innerDepth types depth entry.1)
      (nestAt types (innerDepth types depth entry.1) entry.2)) :
    InNestedForm types depth (.obj (nestEntry types depth entry out)) := by
  unfold Projection.nestEntry
  cases hkey : nestedKey? types depth entry.1 with
  | none =>
    rw [innerDepth_kept hkey] at inner
    exact form.insert hkey inner
  | some parts =>
    obtain ⟨type, name⟩ := parts
    rw [innerDepth_nested hkey] at inner
    have htype : Plain type := (memberOf?_eq_some_iff.1 (nestedKey?_eq_some_iff.1 hkey).1).2
    have hname : Plain name := plain _ hkey
    refine form.insert (nestedKey?_of_plain types depth htype) ?_
    exact (form.under type).insert (nestedKey?_of_plain types (depth + 1) hname) inner

theorem nestEntries (form : InNestedForm types depth (.obj out))
    (plain : ∀ e ∈ state, ∀ parts ∈ nestedKey? types depth e.1, Plain parts.2)
    (inner : ∀ e ∈ state, InNestedForm types (innerDepth types depth e.1)
      (nestAt types (innerDepth types depth e.1) e.2)) :
    InNestedForm types depth (.obj (nestEntries types depth state out)) := by
  induction state generalizing out with
  | nil => simpa [Projection.nestEntries] using form
  | cons e rest ih =>
    rw [List.forall_mem_cons] at plain inner
    rw [nestEntries_cons]
    exact ih (form.nestEntry plain.1 inner.1) plain.2 inner.2

theorem nestAt (plain : PlainNames types depth value) :
    InNestedForm types depth (nestAt types depth value) := by
  induction value generalizing depth with
  | obj state ih =>
    rw [plainNames_obj_iff] at plain
    rw [Projection.nestAt]
    exact (empty types depth).nestEntries (fun e he => (plain e he).1) fun e he =>
      ih e he (plain e he).2
  | _ => exact .value rfl

end InNestedForm

/-- A state that was nested has no keys left to nest, and nesting it again changes nothing, not even
the order of keys, if no member's name has a colon. -/
theorem nest_nest (types : CollectionTypes) {state : Json} (plain : PlainNames types 0 state) :
    InNestedForm types 0 (nest types state) ∧
      nest types (nest types state) = nest types state :=
  ⟨.nestAt plain, nestAt_of_nestedForm (.nestAt plain)⟩

namespace Mixed

def collections : CollectionTypes := [(0, ["Region"]), (2, ["Zone"])]

def given : Json :=
  .obj [("Region", .obj [("air", .obj [("Zone:in", .null)]), ("", .arr [])]), ("Zone:top", .null),
    ("Region:", .obj [("Zone", .obj [("out", .null)]), ("Zone:in", .null)])]

/-- The members of one type come together, whether they were nested or not. -/
def nested : Json :=
  .obj [("Region", .obj [("air", .obj [("Zone", .obj [("in", .null)])]),
      ("", .obj [("Zone", .obj [("out", .null), ("in", .null)])])]), ("Zone:top", .null)]

theorem plainNames_given : PlainNames collections 0 given := by
  have hair : PlainNames collections 2 (.obj [("Zone:in", .null)]) := by
    rw [plainNames_obj_iff, List.forall_mem_singleton]
    exact ⟨by decide +kernel, plainNames_of_value rfl⟩
  have hregions : PlainNames collections 1 (.obj [("air", .obj [("Zone:in", .null)]),
      ("", .arr [])]) := by
    rw [plainNames_obj_iff, List.forall_mem_cons, List.forall_mem_singleton]
    exact ⟨⟨by decide +kernel, hair⟩, by decide +kernel, plainNames_of_value rfl⟩
  have hzones : PlainNames collections 3 (.obj [("out", .null)]) := by
    rw [plainNames_obj_iff, List.forall_mem_singleton]
    exact ⟨by decide +kernel, plainNames_of_value rfl⟩
  have hunnamed : PlainNames collections 2 (.obj [("Zone", .obj [("out", .null)]),
      ("Zone:in", .null)]) := by
    rw [plainNames_obj_iff, List.forall_mem_cons, List.forall_mem_singleton]
    exact ⟨⟨by decide +kernel, hzones⟩, by decide +kernel, plainNames_of_value rfl⟩
  rw [given, plainNames_obj_iff, List.forall_mem_cons, List.forall_mem_cons,
    List.forall_mem_singleton]
  exact ⟨⟨by decide +kernel, hregions⟩, ⟨by decide +kernel, plainNames_of_value rfl⟩,
    by decide +kernel, hunnamed⟩

theorem nest_nest_mixed :
    nest collections given = nested ∧ nest collections nested = nested := by
  have hnested : nest collections given = nested := by rfl
  obtain ⟨-, hagain⟩ := nest_nest collections plainNames_given
  rw [hnested] at hagain
  exact ⟨hnested, hagain⟩

end Mixed

end SettingsTree.Projection
