import SettingsTree.Proofs.Json.Canonical
import SettingsTree.Proofs.Schema.Reuse

/-! # Schemas whose ordinals decide

A document decides the order of entries with equal ordinals and of no others. When no section has
two entries with one ordinal, all documents that are alike compile to the same schema.
-/

namespace SettingsTree

open Entry

namespace Entry

/-- No two entries of a section have the same ordinal. An entry without one has the last one. -/
def Untied (part : Section) (entry : Entry) : Prop :=
  ∀ name inner name' inner' ordinal, Holds part entry name inner → Holds part entry name' inner' →
    HasOrdinal inner ordinal → HasOrdinal inner' ordinal → name = name'

/-- No section that the compiler reads, at any depth, has two entries with the same ordinal. -/
inductive OrdinalsDecide : Entry → Prop
  | intro {entry : Entry} (parameters : Untied .parameters entry)
      (children : Untied .children entry) (commands : Untied .commands entry)
      (arguments : ∀ name inner, Holds .commands entry name inner → Untied .arguments inner)
      (inside : ∀ name inner, Holds .children entry name inner → OrdinalsDecide inner) :
      OrdinalsDecide entry

variable {part : Section} {entry other : Entry} {listed found : List Item}

theorem mem_names_at_iff (h : Lists part entry listed) (keep : String → Bool) (ordinal : Int64)
    (name : String) :
    name ∈ (listed.filter fun i => i.ordinal = ordinal && keep i.name).map Item.name ↔
      keep name = true ∧ ∃ inner, Holds part entry name inner ∧ inner.HasOrdinal ordinal := by
  have hreads := h.reads
  rw [List.mem_map]
  constructor
  · rintro ⟨i, hi, rfl⟩
    obtain ⟨hmem, hkeep⟩ := List.mem_filter.1 hi
    rw [Bool.and_eq_true, decide_eq_true_eq] at hkeep
    obtain ⟨members, hget, hmember, hordinal⟩ := hreads.of_item (mem_sortOn.2 hmem)
    exact ⟨hkeep.2, i.entry, ⟨members, hget, hmember⟩, hkeep.1 ▸ hordinal⟩
  · rintro ⟨hkeep, inner, hholds, hordinal⟩
    obtain ⟨i, hi, rfl, rfl⟩ := (holds_iff hreads).1 hholds
    obtain ⟨_, _, _, hordinal'⟩ := hreads.of_item hi
    refine ⟨i, List.mem_filter.2 ⟨mem_sortOn.1 hi, ?_⟩, rfl⟩
    rw [hordinal'.unique hordinal, hkeep]
    simp

theorem Agree.holds_at_iff (h : entry.Agree other) (name : String) (ordinal : Int64) :
    (∃ inner, Holds part entry name inner ∧ inner.HasOrdinal ordinal) ↔
      ∃ inner, Holds part other name inner ∧ inner.HasOrdinal ordinal := by
  constructor
  · rintro ⟨inner, hinner, hordinal⟩
    obtain ⟨outer, houter⟩ := h.holds_iff.1 ⟨inner, hinner⟩
    exact ⟨outer, houter, ((hinner.agree h houter).hasOrdinal_iff ordinal).1 hordinal⟩
  · rintro ⟨outer, houter, hordinal⟩
    obtain ⟨inner, hinner⟩ := h.holds_iff.2 ⟨outer, houter⟩
    exact ⟨inner, hinner, ((hinner.agree h houter).hasOrdinal_iff ordinal).2 hordinal⟩

theorem Lists.nodup_at (h : Lists part entry listed) (unique : (Json.obj entry).Unique)
    (keep : Item → Bool) : ((listed.filter keep).map Item.name).Nodup := by
  have hnodup := h.reads.nodup unique
  rw [((sortOn_perm precedes listed).map Item.name).nodup_iff] at hnodup
  exact hnodup.sublist (List.filter_sublist.map Item.name)

theorem Untied.name_eq (h : Untied part entry) (hlisted : Lists part entry listed)
    {keep : String → Bool} {ordinal : Int64} {name name' : String}
    (hname : name ∈ (listed.filter fun i => i.ordinal = ordinal && keep i.name).map Item.name)
    (hname' : name' ∈ (listed.filter fun i => i.ordinal = ordinal && keep i.name).map Item.name) :
    name = name' := by
  obtain ⟨-, inner, hinner, hordinal⟩ := (mem_names_at_iff hlisted keep ordinal name).1 hname
  obtain ⟨-, inner', hinner', hordinal'⟩ := (mem_names_at_iff hlisted keep ordinal name').1 hname'
  exact h name inner name' inner' ordinal hinner hinner' hordinal hordinal'

theorem untied_of_items (h : items part "" entry = .ok listed)
    (nodup : (listed.map Item.ordinal).Nodup) : Untied part entry := by
  intro name inner name' inner' ordinal hinner hinner' hordinal hordinal'
  have hreads := (items_eq_ok_iff.1 h).reads
  obtain ⟨i, hi, rfl, rfl⟩ := (holds_iff hreads).1 hinner
  obtain ⟨j, hj, rfl, rfl⟩ := (holds_iff hreads).1 hinner'
  obtain ⟨_, _, _, hi'⟩ := hreads.of_item hi
  obtain ⟨_, _, _, hj'⟩ := hreads.of_item hj
  have hsame : i = j := List.inj_on_of_nodup_map nodup (mem_sortOn.1 hi) (mem_sortOn.1 hj)
    ((hi'.unique hordinal).trans (hordinal'.unique hj'))
  rw [hsame]

/-- Where no two entries have one ordinal, there is no tie to break. -/
theorem Untied.tiesAgree (h : Untied part entry) (hagree : entry.Agree other)
    (keep : String → Bool) : TiesAgree part keep entry other := by
  intro listed found hlisted hfound ordinal
  have hmem (name : String) :
      name ∈ (listed.filter fun i => i.ordinal = ordinal && keep i.name).map Item.name ↔
        name ∈ (found.filter fun i => i.ordinal = ordinal && keep i.name).map Item.name := by
    rw [mem_names_at_iff hlisted, mem_names_at_iff hfound, hagree.holds_at_iff]
  have hperm := (List.perm_ext_iff_of_nodup (hlisted.nodup_at hagree.left _)
    (hfound.nodup_at hagree.right _)).2 hmem
  -- both lists have the same single name, if any
  refine hperm.eq_of_pairwise (fun _ _ _ _ heq _ => heq) ?_ ?_
  · exact List.pairwise_of_forall_mem_list fun _ ha _ hb => h.name_eq hlisted ha hb
  · exact List.pairwise_of_forall_mem_list fun a ha b hb =>
      h.name_eq hlisted ((hmem a).2 ha) ((hmem b).2 hb)

/-- The induction follows the first entry; what is listed as a child agrees again. -/
theorem OrdinalsDecide.sameTies {options : Options} (h : entry.OrdinalsDecide)
    (hagree : entry.Agree other) : SameTies options entry other := by
  induction h generalizing other with
  | intro parameters children commands arguments _ ih =>
    refine .intro (parameters.tiesAgree hagree _) (children.tiesAgree hagree _)
      (commands.tiesAgree hagree _) ?_ ?_
    · intro name inner found hinner hfound
      exact (arguments name inner hinner).tiesAgree (hinner.agree hagree hfound) _
    · intro name inner found hinner hfound
      exact ih name inner hinner (hinner.agree hagree hfound)

end Entry

section

variable {raw other : Json} {rootType : String} {options : Options} {schema : Compiled}

theorem agree_of_field (hraw : raw.Unique) (hother : other.Unique) (halike : raw.Alike other)
    {name : String} {entry entry' : Entry} (h : raw.field? name = some (.obj entry))
    (h' : other.field? name = some (.obj entry')) : entry.Agree entry' := by
  cases raw with
  | obj top =>
    obtain ⟨top', rfl⟩ := halike.obj_iff.1 ⟨top, rfl⟩
    exact Entry.Agree.inner ⟨hraw, hother, halike⟩ h h'
  | _ => simp [Json.field?, Json.members?] at h

/-- A schema whose ordinals decide compiles to the same tree, with the same digests, in whatever
order its document stands. -/
theorem compile_eq_of_ordinalsDecide (hraw : raw.Unique) (hother : other.Unique)
    (halike : raw.Alike other) (compiled : compile raw rootType options = .ok schema)
    (decided : ∀ entry, raw.field? rootType = some (.obj entry) → OrdinalsDecide entry) :
    compile other rootType options = .ok schema := by
  obtain ⟨schema', entry, entry', hschema', hentry, hentry', -, hroot⟩ :=
    compile_of_alike hraw hother halike ⟨rfl, rfl⟩ compiled
  have hagree : Entry.Agree entry entry' := agree_of_field hraw hother halike hentry hentry'
  have hroots : schema'.root = schema.root := hroot.2 ((decided entry hentry).sameTies hagree)
  obtain ⟨_, _, _, root, -, -, -, -, -, -, rfl⟩ := compile_eq_ok_iff.1 compiled
  obtain ⟨_, _, _, root', -, -, -, -, -, -, rfl⟩ := compile_eq_ok_iff.1 hschema'
  dsimp only at hroots
  rw [hschema', hroots, Json.digest_of_alike hother halike]

end

/-! ### A schema in two orders

Two properties have one local name before they are told apart; one of them has no ordinal. A
collection lists its commands before its properties in one of the documents.
-/

namespace Decided

def real : String × Json := ("aB", .obj [("type", .str "Real"), ("ordinal", .int 1)])

def integer : String × Json := ("a_b", .obj [("type", .str "Integer")])

def step : String × Json := ("Step", .obj [("isQuery", .bool false),
  ("args", .obj [integer, real])])

def zone : Entry := [("isNamed", .bool true), ("__parameters", .obj [integer]),
  ("__commands", .obj [step])]

def entry : Entry :=
  [("__parameters", .obj [real, integer]), ("__children", .obj [("Zone", .obj zone)])]

def first : Json := .obj [("R", .obj entry)]

def second : Json :=
  .obj [("R", .obj [
    ("__children", .obj [("Zone", .obj [("__commands", .obj [step]),
      ("__parameters", .obj [integer]), ("isNamed", .bool true)])]),
    ("__parameters", .obj [integer, real])])]

def zoneLabel : Label := ⟨"Zone", "zone", lastOrdinal⟩

def schema : Compiled :=
  ⟨first.digest, Options.digest {}, "R", .container ⟨"R", "r", lastOrdinal⟩
    [.leaf ⟨"aB", "a_b", 1⟩ .real, .leaf ⟨"a_b", "a_b_1", lastOrdinal⟩ .integer]
    [.collection zoneLabel (.container zoneLabel [.leaf ⟨"a_b", "a_b", lastOrdinal⟩ .integer] []
      [.command ⟨"Step", "step", lastOrdinal⟩
        [.leaf ⟨"aB", "a_b", 1⟩ .real, .leaf ⟨"a_b", "a_b_1", lastOrdinal⟩ .integer] [] none
        false])] []⟩

theorem compiled : compile first "R" {} = .ok schema :=
  compile_eq_ok_of_container rfl (Or.inl ⟨Or.inl rfl, rfl⟩) (by decide +kernel)

theorem unique : first.Unique ∧ second.Unique := by
  simp [first, second, entry, zone, real, integer, step, Json.int, Json.Unique,
    Json.UniqueMembers, Keyed.Distinct]

theorem alike : first.Alike second :=
  Json.alike_of_canonical unique.1 unique.2 (congrArg String.ofList (by decide +kernel))

theorem decided : OrdinalsDecide entry := by
  refine .intro (untied_of_items rfl (by decide)) (untied_of_items rfl (by decide))
    (untied_of_items rfl (by decide)) ?_ ?_
  · rintro name inner ⟨members, hget, hmem⟩
    cases hget
  · rintro name inner ⟨members, hget, hmem⟩
    cases hget
    obtain ⟨rfl, rfl⟩ : name = "Zone" ∧ inner = zone := by simpa using hmem
    refine .intro (untied_of_items rfl (by decide)) (untied_of_items rfl (by decide))
      (untied_of_items rfl (by decide)) ?_ ?_
    · rintro name inner ⟨members, hget, hmem⟩
      cases hget
      cases List.mem_singleton.1 hmem
      exact untied_of_items rfl (by decide)
    · rintro name inner ⟨members, hget, hmem⟩
      cases hget

end Decided

/-- What the first document compiles to is what the second one compiles to. -/
theorem compile_eq_of_ordinalsDecide_decided :
    Decided.first ≠ Decided.second ∧ compile Decided.first "R" {} = .ok Decided.schema ∧
      compile Decided.second "R" {} = .ok Decided.schema := by
  refine ⟨by simp [Decided.first, Decided.second, Decided.entry], Decided.compiled, ?_⟩
  refine compile_eq_of_ordinalsDecide Decided.unique.1 Decided.unique.2 Decided.alike
    Decided.compiled fun entry hentry => ?_
  cases hentry
  exact Decided.decided

end SettingsTree
