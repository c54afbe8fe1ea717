import SettingsTree.Path.Check
import SettingsTree.Proofs.Keyed
import SettingsTree.Proofs.Projection.Separate

/-! # Answers at the path of a collection

At the path of a collection the remote gives one value for each member, under the bare name of the
member or under its key with the type. Names may have colons, so the bare name of one member can be
the key of another one. From the answer it cannot be told which of the two was meant, and it is read
as a key with the type. Where no bare name is such a key, every member is read under its own name.
-/

namespace SettingsTree.Projection

open Descriptor

/-- How the remote may write the key of a member at the path of the collection. -/
inductive KeyForm where
  | bare
  | typed
  deriving DecidableEq, Repr

/-- A member of a collection in an answer at the collection's own path. -/
structure Answered where
  name : String
  form : KeyForm
  value : Json

namespace Answered

def key (type : String) (member : Answered) : String :=
  match member.form with
  | .bare => member.name
  | .typed => memberKey type member.name

def entry (type : String) (member : Answered) : String × Json := (member.key type, member.value)

/-- The key of the member is not mistaken for that of another one: a bare name is no key with the
type. -/
def Clear (type : String) (member : Answered) : Prop :=
  member.form = .bare → ∀ other, member.name ≠ memberKey type other

end Answered

theorem memberKey_ne_self (type name : String) : memberKey type name ≠ name := by
  intro h
  have hlength := congrArg (fun s => s.toList.length) h
  simp only [toList_memberKey, List.length_append, List.length_cons] at hlength
  omega

/-- No way of reading answers gives every member under its own name: a bare name that is a key with
the type makes the same answer as the member to whom this key belongs. -/
theorem not_exists_reader (type : String) (project : Json → Json) :
    ¬ ∃ read : Keyed Json → Keyed Json, ∀ members : List Answered,
      (members.map Answered.name).Nodup → (members.map (Answered.key type)).Nodup →
        read (members.map (Answered.entry type)) =
          members.map fun m => (m.name, project m.value) := by
  rintro ⟨read, h⟩
  have hbare := h [⟨memberKey type "x", .bare, .null⟩] (by simp) (by simp)
  have htyped := h [⟨"x", .typed, .null⟩] (by simp) (by simp)
  have hname := (List.cons.inj (hbare.symm.trans htyped)).1
  exact memberKey_ne_self type "x" (congrArg Prod.fst hname)

theorem memberOf?_key_eq_name_iff {type : String} (plain : Plain type) (member : Answered) :
    (memberOf? type (member.key type)).getD (member.key type) = member.name ↔
      member.Clear type := by
  obtain ⟨name, form, value⟩ := member
  cases form with
  | typed => simp [Answered.key, Answered.Clear, memberOf?_memberKey plain]
  | bare =>
    rw [Answered.key, Answered.Clear]
    constructor
    · rintro h - other rfl
      rw [memberOf?_memberKey plain, Option.getD_some] at h
      exact memberKey_ne_self type other h.symm
    · intro clear
      have hnone : memberOf? type name = none := by
        rw [Option.eq_none_iff_forall_ne_some]
        exact fun other hother => clear rfl other (memberOf?_eq_some_iff.1 hother).1
      rw [hnone, Option.getD_none]

/-- An answer is read member by member just when all its keys are clear. -/
theorem collectionToLocal_answer_iff {label : Label} (template : Descriptor)
    (plain : Plain label.remote) {members : List Answered}
    (distinct : (members.map Answered.name).Nodup) :
    collectionToLocal (.collection label template)
        (.obj (members.map (Answered.entry label.remote))) =
      .obj (members.map fun m => (m.name, toLocal template m.value)) ↔
    ∀ m ∈ members, m.Clear label.remote := by
  have hread : collectionToLocal (.collection label template)
      (.obj (members.map (Answered.entry label.remote))) =
      .obj (Keyed.ofList (members.map fun m =>
        ((memberOf? label.remote (m.key label.remote)).getD (m.key label.remote),
          toLocal template m.value))) := by
    rw [collectionToLocal, List.map_map]
    rfl
  have hnames : Keyed.Distinct (members.map fun m => (m.name, toLocal template m.value)) := by
    simpa [Keyed.Distinct, Keyed.names, Function.comp_def] using distinct
  rw [hread, Json.obj.injEq]
  constructor
  · intro h m hm
    -- as many entries are left as were written, so none was written over another one
    have hkept := Keyed.ofList_of_distinct (Keyed.distinct_of_ofList (h ▸ hnames) (by simp [h]))
    rw [h, List.map_inj_left] at hkept
    exact (memberOf?_key_eq_name_iff plain m).1 (congrArg Prod.fst (hkept m hm)).symm
  · intro clear
    rw [List.map_congr_left fun m hm => by
      rw [(memberOf?_key_eq_name_iff plain m).2 (clear m hm)]]
    exact Keyed.ofList_of_distinct hnames

/-! ### Names with colons in an answer -/

def clearAnswer : List Answered := [
  ⟨"a:b", .bare, .obj [("Topology", .str "Solid"), ("x", .null)]⟩,
  ⟨"Region:a", .typed, .int 1⟩,
  ⟨"Region", .bare, .obj []⟩,
  ⟨"a", .typed, .obj [("Topology", .null)]⟩]

/-- A member under its bare name, which is the key of another name. -/
def mistakenAnswer : List Answered := [⟨"Region:x", .bare, .obj [("Topology", .str "Fluid")]⟩]

theorem collectionToLocal_answer_iff_sample :
    Plain Sample.region.remote ∧ (clearAnswer.map Answered.name).Nodup ∧
      collectionToLocal (.collection Sample.region Sample.template)
          (.obj (clearAnswer.map (Answered.entry Sample.region.remote))) =
        .obj [("a:b", .obj [("topology", .str "Solid")]), ("Region:a", .int 1),
          ("Region", .obj []), ("a", .obj [("topology", .null)])] := by
  have plain : Plain Sample.region.remote := by simp [Plain, Sample.region]
  have distinct : (clearAnswer.map Answered.name).Nodup := by decide
  have clear : ∀ m ∈ clearAnswer, m.Clear Sample.region.remote := by
    simp only [← memberOf?_key_eq_name_iff plain]
    decide
  exact ⟨plain, distinct,
    ((collectionToLocal_answer_iff Sample.template plain distinct).2 clear).trans rfl⟩

/-- A member that is not read under its name, though the name is accepted for a member: its name is
the key that the member `x` would have. -/
theorem collectionToLocal_mistaken :
    compile Sample.raw "Root" {} = .ok Sample.schema ∧
      Sample.schema.root.Reaches (.collection Sample.region Sample.template) ∧
      Plain Sample.region.remote ∧ (mistakenAnswer.map Answered.name).Nodup ∧
      (mistakenAnswer.map (Answered.key Sample.region.remote)).Nodup ∧
      (∀ m ∈ mistakenAnswer, Path.checkObjectName m.name = .ok ()) ∧
      collectionToLocal (.collection Sample.region Sample.template)
          (.obj (mistakenAnswer.map (Answered.entry Sample.region.remote))) ≠
        .obj (mistakenAnswer.map fun m => (m.name, toLocal Sample.template m.value)) := by
  have hreaches : Sample.root.Reaches (.collection Sample.region Sample.template) :=
    .child List.mem_cons_self .root
  have hread : collectionToLocal (.collection Sample.region Sample.template)
      (.obj (mistakenAnswer.map (Answered.entry Sample.region.remote))) =
      .obj [("x", .obj [("topology", .str "Fluid")])] := rfl
  refine ⟨Sample.compiled, hreaches, by simp [Plain, Sample.region], by decide, by decide,
    by decide, ?_⟩
  rw [hread]
  simp [mistakenAnswer]

end SettingsTree.Projection
