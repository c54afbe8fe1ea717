import SettingsTree.Proofs.Json.Alike
import SettingsTree.Proofs.Projection.Container
import SettingsTree.Proofs.Projection.Nested
import SettingsTree.Proofs.Schema.Lookup

/-! # Nesting by depth and nesting by the schema

Nesting without a schema goes by the depth of a key alone. When it is told at which depths below a
container the collections of the schema occur, it moves the same members as the schema does,
although a type may be a collection at one place and an ordinary child at another. What is left is
to rename the keys.
-/

namespace SettingsTree

/-- A collection of this type occurs in the local form of a state, at this depth. The state of a
fixed child is one level down, that of a member two. -/
inductive Descriptor.HasCollection : Descriptor → Nat → String → Prop
  | here {outer properties children commands label template} :
      .collection label template ∈ children →
      HasCollection (.container outer properties children commands) 0 label.remote
  | child {outer properties children commands c depth type} : c ∈ children →
      HasCollection c depth type →
      HasCollection (.container outer properties children commands) (depth + 1) type
  | member {outer properties children commands label template depth type} :
      .collection label template ∈ children → HasCollection template depth type →
      HasCollection (.container outer properties children commands) (depth + 2) type

namespace Projection

open Descriptor

/-- The collections that occur below a descriptor are told, for a state that stands at `depth`. -/
def CollectionTypes.Covers (types : CollectionTypes) (depth : Nat) (d : Descriptor) : Prop :=
  ∀ below type, d.HasCollection below type → types.has (depth + below) type = true

mutual
/-- A remote state of known keys only, at every level, where no property has an object. -/
inductive Familiar : Descriptor → Json → Prop
  | value {d value} : value.members? = none → Familiar d value
  | object {label properties children commands state} :
      (∀ e ∈ state, FamiliarEntry properties children e) →
      Familiar (.container label properties children commands) (.obj state)
/-- An entry of a known key. -/
inductive FamiliarEntry : List Descriptor → List Descriptor → String × Json → Prop
  | property {properties children p value} : p ∈ properties → value.members? = none →
      FamiliarEntry properties children (p.remote, value)
  | child {properties children c value} : c ∈ children → c.kind ≠ .collection →
      Familiar c value → FamiliarEntry properties children (c.remote, value)
  | member {properties children label template name value} :
      .collection label template ∈ children → Familiar template value →
      FamiliarEntry properties children (memberKey label.remote name, value)
end

def localProperty? (properties : List Descriptor) (entry : String × Json) :
    Option (String × Json) :=
  (properties.find? fun p => p.remote = entry.1).map fun p => (p.localName, entry.2)

mutual
/-- Rename the keys of a nested state from remote to local names, level by level. -/
def localNames : Descriptor → Json → Json
  | .container _ properties children _, .obj state =>
    .obj (state.map fun entry => (localProperty? properties entry).getD (localChild children entry))
  | .collection _ template, .obj members =>
    .obj (members.map fun m => (m.1, localNames template m.2))
  | _, value => value
def localChild : List Descriptor → String × Json → String × Json
  | [], entry => entry
  | child :: rest, entry =>
    if entry.1 = child.remote then (child.localName, localNames child entry.2)
    else localChild rest entry
end

def localEntry (properties children : List Descriptor) (entry : String × Json) : String × Json :=
  (localProperty? properties entry).getD (localChild children entry)

variable {types : CollectionTypes} {depth : Nat} {state : Keyed Json} {label outer : Label}
  {properties children commands : List Descriptor} {c p template : Descriptor}
  {e : String × Json} {value : Json}

/-! ### What is told below a container -/

namespace CollectionTypes.Covers

variable (covers : types.Covers depth (.container outer properties children commands))

include covers

theorem here (mem : .collection label template ∈ children) :
    types.has depth label.remote = true := covers 0 _ (.here mem)

theorem child (mem : c ∈ children) : types.Covers (depth + 1) c := by
  intro below type h
  have := covers _ _ (.child mem h)
  rwa [Nat.add_comm below, ← Nat.add_assoc] at this

theorem member (mem : .collection label template ∈ children) :
    types.Covers (depth + 2) template := by
  intro below type h
  have := covers _ _ (.member mem h)
  rwa [Nat.add_comm below, ← Nat.add_assoc] at this

end CollectionTypes.Covers

/-! ### Renamed keys -/

theorem localChild_of_mem (nodup : (children.map remote).Nodup) (hc : c ∈ children)
    (value : Json) : localChild children (c.remote, value) = (c.localName, localNames c value) := by
  induction children with
  | nil => cases hc
  | cons first rest ih =>
    rw [List.map_cons, List.nodup_cons] at nodup
    rw [localChild]
    rcases List.mem_cons.1 hc with rfl | hc
    · rw [if_pos rfl]
    · have hne : c.remote ≠ first.remote := fun h => nodup.1 (h ▸ List.mem_map_of_mem hc)
      rw [if_neg hne, ih nodup.2 hc]

section

variable (projectable : (container outer properties children commands).Projectable)

include projectable

theorem localEntry_property (hp : p ∈ properties) (value : Json) :
    localEntry properties children (p.remote, value) = (p.localName, value) := by
  rw [localEntry, localProperty?, (find?_name_eq_some_iff projectable.remotes.1).2 ⟨hp, rfl⟩]
  rfl

theorem localEntry_child (hc : c ∈ children) (value : Json) :
    localEntry properties children (c.remote, value) = (c.localName, localNames c value) := by
  obtain ⟨-, hnodup, hne⟩ := projectable.remotes
  have hother : localProperty? properties (c.remote, value) = none := by
    simpa [localProperty?] using fun p hp => hne p hp c hc
  rw [localEntry, hother, Option.getD_none, localChild_of_mem hnodup hc]

end

/-! ### Known keys

Nesting writes every entry of a known key under the remote name of the member to which the key
belongs, so what it writes there are this member's entries.
-/

namespace FamiliarEntry

variable (projectable : (container outer properties children commands).Projectable)
  (covers : types.Covers depth (.container outer properties children commands))
  (familiar : FamiliarEntry properties children e)

include projectable covers familiar

theorem belongs :
    (∃ p ∈ properties, nestedName types depth e.1 = p.remote ∧ e.1 = p.remote ∧
      e.2.members? = none) ∨
    (∃ c ∈ children, nestedName types depth e.1 = c.remote ∧ c.kind ≠ .collection ∧
      e.1 = c.remote ∧ Familiar c e.2) ∨
    ∃ label template, .collection label template ∈ children ∧
      nestedName types depth e.1 = label.remote ∧
      ∃ name, e.1 = memberKey label.remote name ∧ Familiar template e.2 := by
  obtain ⟨-, hplain, -⟩ := projectable
  cases familiar with
  | property hp hvalue =>
    have hname := nestedName_of_plain types depth (hplain _ (List.mem_append_left _ hp))
    exact .inl ⟨_, hp, hname, rfl, hvalue⟩
  | child hc hkind hvalue =>
    have hname := nestedName_of_plain types depth (hplain _ (List.mem_append_right _ hc))
    exact .inr (.inl ⟨_, hc, hname, hkind, rfl, hvalue⟩)
  | @member _ _ label template name _ hc hvalue =>
    have hremote : Plain label.remote := hplain _ (List.mem_append_right _ hc)
    have hname := nestedName_memberKey hremote (covers.here hc) name
    exact .inr (.inr ⟨label, template, hc, hname, name, rfl, hvalue⟩)

theorem nestedName_mem : nestedName types depth e.1 ∈ (properties ++ children).map remote := by
  rcases belongs projectable covers familiar with
    ⟨p, hp, hname, -⟩ | ⟨c, hc, hname, -⟩ | ⟨label, template, hc, hname, -⟩
  · exact hname ▸ List.mem_map_of_mem (List.mem_append_left _ hp)
  · exact hname ▸ List.mem_map_of_mem (List.mem_append_right _ hc)
  · exact hname ▸ List.mem_map_of_mem (f := remote) (List.mem_append_right _ hc)

theorem of_property (hp : p ∈ properties) (hname : nestedName types depth e.1 = p.remote) :
    e.1 = p.remote ∧ e.2.members? = none := by
  rcases belongs projectable covers familiar with
    ⟨q, -, hq, hkey, hvalue⟩ | ⟨c, hc, hother, -⟩ | ⟨label, template, hc, hother, -⟩
  · exact ⟨hkey.trans (hq.symm.trans hname), hvalue⟩
  · exact absurd (hname.symm.trans hother) (projectable.remotes.2.2 p hp _ hc)
  · exact absurd (hname.symm.trans hother) (projectable.remotes.2.2 p hp _ hc)

theorem of_child (hc : c ∈ children) (hkind : c.kind ≠ .collection)
    (hname : nestedName types depth e.1 = c.remote) : e.1 = c.remote ∧ Familiar c e.2 := by
  rcases belongs projectable covers familiar with
    ⟨p, hp, hother, -⟩ | ⟨d, hd, hsame, -, hkey, hvalue⟩ | ⟨label, template, hd, hsame, -⟩
  · exact absurd (hother.symm.trans hname) (projectable.remotes.2.2 p hp _ hc)
  · cases projectable.eq_of_remote hd hc (hsame.symm.trans hname)
    exact ⟨hkey, hvalue⟩
  · cases projectable.eq_of_remote hd hc (hsame.symm.trans hname)
    exact absurd rfl hkind

theorem of_collection (hc : .collection label template ∈ children)
    (hname : nestedName types depth e.1 = label.remote) :
    ∃ name, e.1 = memberKey label.remote name ∧ Familiar template e.2 := by
  rcases belongs projectable covers familiar with
    ⟨p, hp, hother, -⟩ | ⟨d, hd, hsame, hkind, -⟩ | ⟨label, template, hd, hsame, hvalue⟩
  · exact absurd (hother.symm.trans hname) (projectable.remotes.2.2 p hp _ hc)
  · cases projectable.eq_of_remote hd hc (hsame.symm.trans hname)
    exact absurd rfl hkind
  · cases projectable.eq_of_remote hd hc (hsame.symm.trans hname)
    exact hvalue

end FamiliarEntry

section

variable (projectable : (container outer properties children commands).Projectable)
  (covers : types.Covers depth (.container outer properties children commands))
  (familiar : ∀ e ∈ state, FamiliarEntry properties children e)

include projectable covers familiar

/-- Nothing is nested but what the members of the container account for. -/
theorem nestEntries_perm :
    (nestEntries types depth state []).Perm ((properties ++ children).flatMap fun m =>
      (Keyed.get? m.remote (nestEntries types depth state [])).toList.map (m.remote, ·)) := by
  refine Keyed.perm_flatMap_get? (distinct_nestEntries _ _ _ List.nodup_nil) ?_ projectable.1
  intro name hname
  rcases mem_names_nestEntries hname with ⟨e, he, rfl⟩ | h
  · exact (familiar e he).nestedName_mem projectable covers
  · cases h

variable (distinct : Keyed.Distinct state)

include distinct

theorem get?_nested_property (hp : p ∈ properties) :
    Keyed.get? p.remote (nestEntries types depth state []) = Keyed.get? p.remote state := by
  have hkept := nestedKey?_of_plain types depth (projectable.2.1 _ (List.mem_append_left _ hp))
  have hown := fun e he => (familiar e he).of_property projectable covers hp
  rw [get?_nestEntries distinct hkept fun e he hname => (hown e he hname).1]
  cases hvalue : Keyed.get? p.remote state with
  | none => rfl
  | some value =>
    have hname := nestedName_of_plain types depth
      (projectable.2.1 _ (List.mem_append_left _ hp))
    have hplain := (hown _ (Keyed.mem_of_get? hvalue) hname).2
    cases value with
    | obj members => simp [Json.members?] at hplain
    | _ => simp [nestAt]

/-- The state of a fixed child is nested one level down. -/
theorem get?_nested_child (hc : c ∈ children) (hkind : c.kind ≠ .collection) :
    Keyed.get? c.remote (nestEntries types depth state []) =
      (Keyed.get? c.remote state).map (nestAt types (depth + 1)) := by
  have hkept := nestedKey?_of_plain types depth (projectable.2.1 _ (List.mem_append_right _ hc))
  rw [get?_nestEntries distinct hkept fun e he hname =>
    ((familiar e he).of_child projectable covers hc hkind hname).1]
  simp

/-- The members of a collection are nested two levels down and stand under its type. -/
theorem get?_nested_collection (hc : .collection label template ∈ children) :
    Keyed.get? label.remote (nestEntries types depth state []) =
      Keyed.get? label.remote (nonemptyEntry label.remote
        (gather label.remote (nestAt types (depth + 2)) state)) := by
  have hremote : Plain label.remote := projectable.2.1 _ (List.mem_append_right _ hc)
  refine get?_nestEntries_gather distinct (covers.here hc) fun e he hkept hkey => ?_
  obtain ⟨name, hmember, -⟩ := (familiar e he).of_collection projectable covers hc
    (by rw [hkey, nestedName_of_plain types depth hremote])
  rw [hmember, nestedKey?_memberKey hremote (covers.here hc)] at hkept
  cases hkept

end

/-! ### Agreement -/

theorem sortedMembers_nonemptyEntry (name : String) {members others : Keyed Json}
    (h : Json.sortedMembers members = Json.sortedMembers others) :
    Json.sortedMembers (nonemptyEntry name members) =
      Json.sortedMembers (nonemptyEntry name others) := by
  cases members with
  | nil =>
    cases others with
    | nil => rfl
    | cons other rest => cases h
  | cons member members =>
    cases others with
    | nil => cases h
    | cons other rest =>
      have hobj : (Json.obj (member :: members)).sorted = (Json.obj (other :: rest)).sorted := by
        rw [Json.sorted, Json.sorted, h]
      simp [nonemptyEntry, Json.sortedMembers, hobj]

theorem sorted_localNames_of_value (hvalue : value.members? = none) (d : Descriptor) :
    (localNames d (nestAt types depth value)).sorted = (toLocal d value).sorted := by
  cases value with
  | obj members => cases hvalue
  | _ => cases d <;> simp [nestAt, localNames, toLocal]

section

variable (projectable : (container outer properties children commands).Projectable)
  (covers : types.Covers depth (.container outer properties children commands))
  (familiar : ∀ e ∈ state, FamiliarEntry properties children e)
  (unique : (Json.obj state).Unique)

include projectable covers familiar unique

theorem sorted_gathered (hc : .collection label template ∈ children)
    (member : ∀ v : Json, v.Unique → Familiar template v →
      (localNames template (nestAt types (depth + 2) v)).sorted = (toLocal template v).sorted) :
    Json.sortedMembers ((gather label.remote (nestAt types (depth + 2)) state).map fun m =>
      (m.1, localNames template m.2)) =
      Json.sortedMembers (gather label.remote (toLocal template) state) := by
  have hremote : Plain label.remote := projectable.2.1 _ (List.mem_append_right _ hc)
  rw [gather_eq unique.distinct, gather_eq unique.distinct, Json.sortedMembers_eq,
    Json.sortedMembers_eq, listed, listed, List.map_map, List.map_filterMap, List.map_filterMap]
  refine List.filterMap_congr fun e he => ?_
  cases hname : memberOf? label.remote e.1 with
  | none => rfl
  | some name =>
    have hkey := (memberOf?_eq_some_iff.1 hname).1
    obtain ⟨-, -, hvalue⟩ := (familiar e he).of_collection projectable covers hc
      (by rw [hkey, nestedName_memberKey hremote (covers.here hc)])
    simp [member e.2 (unique.member he) hvalue]

theorem sorted_nested_child (inside : ∀ c ∈ children, c.Projectable) (hc : c ∈ children)
    (fixed : ∀ v : Json, v.Unique → Familiar c v →
      (localNames c (nestAt types (depth + 1) v)).sorted = (toLocal c v).sorted)
    (member : ∀ label template, c = .collection label template → ∀ v : Json, v.Unique →
      Familiar template v →
        (localNames template (nestAt types (depth + 2) v)).sorted = (toLocal template v).sorted) :
    Json.sortedMembers (((Keyed.get? c.remote (nestEntries types depth state [])).toList.map
      (c.remote, ·)).map (localEntry properties children)) =
      Json.sortedMembers (localEntries state c) := by
  cases c with
  | collection label template =>
    have hrename (v : Json) : localEntry properties children (label.remote, v) =
        (label.localName, localNames (.collection label template) v) :=
      localEntry_child projectable hc v
    have hremote : (collection label template).remote = label.remote := rfl
    have hsame : template.remote = label.remote := congrArg Label.remote (inside _ hc).1
    have hmembers := sorted_gathered projectable covers familiar unique hc (member _ _ rfl)
    rw [localEntries, hsame, ← sortedMembers_nonemptyEntry _ hmembers]
    congr 1
    rw [hremote, get?_nested_collection projectable covers familiar unique.distinct hc]
    cases gather label.remote (nestAt types (depth + 2)) state with
    | nil => simp [nonemptyEntry]
    | cons first rest => simp [nonemptyEntry, hrename, localNames]
  | _ =>
    rw [get?_nested_child projectable covers familiar unique.distinct hc (by simp [kind]),
      localEntries]
    · cases hvalue : Keyed.get? _ state with
      | none => rfl
      | some value =>
        have hname := nestedName_of_plain types depth
          (projectable.2.1 _ (List.mem_append_right _ hc))
        have hmem := Keyed.mem_of_get? hvalue
        obtain ⟨-, hvalue⟩ := (familiar _ hmem).of_child projectable covers hc
          (by simp [kind]) hname
        simp [Json.sortedMembers, localEntry_child projectable hc,
          fixed _ (unique.member hmem) hvalue]
    all_goals simp

end

/-- For states of known keys, nesting by depth and renaming the keys gives the local form. -/
theorem localNames_nestAt (d : Descriptor) (h : ∀ x, d.Reaches x → x.Projectable)
    (covers : types.Covers depth d) (p : Json) (unique : p.Unique) (familiar : Familiar d p) :
    (localNames d (nestAt types depth p)).sorted = (toLocal d p).sorted := by
  induction d using states_induct generalizing depth p with
  | container label properties children commands ih ihm =>
    cases familiar with
    | value hvalue => exact sorted_localNames_of_value hvalue _
    | @object _ _ _ _ state hentries =>
      have hroot := h _ .root
      have inside := fun c hc => h c (.child hc .root)
      have hperm := (nestEntries_perm hroot covers hentries).map (localEntry properties children)
      rw [nestAt, localNames, toLocal_container,
        Keyed.ofList_of_distinct (distinct_localState hroot.2.2)]
      -- the state decides the order of what is nested, the schema that of the local form
      refine (Json.sorted_obj_congr (distinct_localState hroot.2.2) ?_).symm
      refine List.Perm.trans (.of_eq ?_) (Json.sortedMembers_perm hperm).symm
      rw [localState, flatMap_blocks, List.flatMap_append, List.map_append,
        Json.sortedMembers_append, Json.sortedMembers_append]
      simp only [List.map_flatMap, Json.sortedMembers_flatMap]
      congr 1
      · refine List.flatMap_congr fun p hp => ?_
        rw [get?_nested_property hroot covers hentries unique.distinct hp, propertyEntries]
        simp [localEntry_property hroot hp, Function.comp_def]
      · refine List.flatMap_congr fun c hc => ?_
        refine (sorted_nested_child hroot covers hentries unique inside hc ?_ ?_).symm
        · exact ih c hc (fun x hx => h x (.of_child hc hx)) (covers.child hc)
        · rintro inner template rfl
          exact ihm inner template hc (fun x hx => h x (.of_child hc (.of_template hx)))
            (covers.member hc)
  | _ =>
    -- an object is known in the place of a container only
    cases familiar with
    | value hvalue => exact sorted_localNames_of_value hvalue _

/-- When the remote names of a compiled schema are separate, and nesting is told at every depth
which collections occur there below a container, it moves the members of a state of known keys as
the schema does: with the keys renamed, what comes out is the local form, up to the order of keys.
-/
theorem localNames_nest {raw : Json} {rootType : String} {options : Options} {schema : Compiled}
    (compiled : compile raw rootType options = .ok schema)
    (separate : ∀ x, schema.root.Reaches x → x.Separate) {d : Descriptor}
    (hd : schema.root.Reaches d) {types : CollectionTypes}
    (told : ∀ depth type, d.HasCollection depth type → types.has depth type = true) {r : Json}
    (unique : r.Unique) (familiar : Familiar d r) :
    (localNames d (nest types r)).sorted = (toLocal d r).sorted := by
  have hcovers : types.Covers 0 d := by
    intro below type h
    rw [Nat.zero_add]
    exact told below type h
  exact localNames_nestAt d (projectable_of_compile compiled separate hd) hcovers r unique familiar

/-! ### A type that is a collection at one place and an ordinary child at another -/

namespace TwoPlaces

open Entry

def raw : Json := .obj [("Root", .obj [("__children", .obj [
  ("Zone", .obj [("isNamed", .bool true), ("ordinal", .int 0), ("__children", .obj [
    ("Region", .obj [("isNamed", .bool true),
      ("__parameters", .obj [("Topology", .obj [("type", .str "String")])])])])]),
  ("Solver", .obj [("ordinal", .int 1), ("__children", .obj [
    ("Region", .obj [
      ("__parameters", .obj [("Order", .obj [("type", .str "Integer")])])])])])])])]

def zone : Label := ⟨"Zone", "zone", 0⟩

def region : Label := ⟨"Region", "region", lastOrdinal⟩

def zoned : Descriptor :=
  .container region [.leaf ⟨"Topology", "topology", lastOrdinal⟩ .string] [] []

def solved : Descriptor :=
  .container region [.leaf ⟨"Order", "order", lastOrdinal⟩ .integer] [] []

def root : Descriptor :=
  .container ⟨"Root", "root", lastOrdinal⟩ []
    [.collection zone (.container zone [] [.collection region zoned] []),
      .container ⟨"Solver", "solver", 1⟩ [] [solved] []] []

def schema : Compiled := ⟨raw.digest, Options.digest {}, "Root", root⟩

theorem compiled : compile raw "Root" {} = .ok schema :=
  compile_eq_ok_of_container rfl (Or.inl ⟨Or.inl rfl, rfl⟩) (by decide +kernel)

theorem separate (x : Descriptor) (h : schema.root.Reaches x) : x.Separate := by
  revert x
  simp [Descriptor.forall_reaches_iff (d := .container _ _ _ _),
    Descriptor.forall_reaches_iff (d := .collection _ _),
    Descriptor.forall_reaches_iff (d := .leaf _ _), Descriptor.parts, Descriptor.Separate,
    Descriptor.remote, Descriptor.label, Plain, or_imp, forall_and, schema, root, region, zone,
    zoned, solved]

/-- Zones stand at the top, their regions two levels down. -/
def collections : CollectionTypes := [(0, ["Zone"]), (2, ["Region"])]

theorem collections_cover_root (depth : Nat) (type : String) (h : root.HasCollection depth type) :
    collections.has depth type = true := by
  have hnone {label : Label} {properties : List Descriptor} {below : Nat} :
      ¬(container label properties [] []).HasCollection below type := by
    rintro (mem | mem | mem) <;> cases mem
  rw [root] at h
  cases h with
  | here mem =>
    obtain ⟨rfl, -⟩ : _ = zone ∧ _ := by simpa using mem
    decide
  | child mem h =>
    rcases List.mem_pair.1 mem with rfl | rfl
    · cases h
    · cases h with
      | here mem => simp [solved] at mem
      | child mem h => exact absurd (List.mem_singleton.1 mem ▸ h) hnone
      | member mem => simp [solved] at mem
  | member mem h =>
    obtain ⟨-, rfl⟩ : _ = zone ∧ _ := by simpa using mem
    cases h with
    | here mem =>
      obtain ⟨rfl, -⟩ : _ = region ∧ _ := by simpa using mem
      decide
    | child mem h =>
      cases List.mem_singleton.1 mem
      cases h
    | member mem h =>
      obtain ⟨-, rfl⟩ : _ = region ∧ _ := by simpa using mem
      exact absurd h hnone

def given : Json := .obj [
  ("Solver", .obj [("Region", .obj [("Order", .int 2)])]),
  ("Zone:a", .obj [("Region:x:y", .obj [("Topology", .str "Solid")])]), ("Zone:", .null)]

theorem unique : given.Unique := by
  simp [given, Json.Unique, Json.UniqueMembers, Keyed.Distinct, Json.int]

theorem familiar : Familiar root given := by
  have horder : Familiar solved (.obj [("Order", .int 2)]) := by
    refine .object fun e he => ?_
    cases List.mem_singleton.1 he
    exact .property List.mem_cons_self rfl
  have htopology : Familiar zoned (.obj [("Topology", .str "Solid")]) := by
    refine .object fun e he => ?_
    cases List.mem_singleton.1 he
    exact .property List.mem_cons_self rfl
  refine .object fun e he => ?_
  simp only [List.mem_cons, List.not_mem_nil, or_false] at he
  rcases he with rfl | rfl | rfl
  · refine .child (c := .container ⟨"Solver", "solver", 1⟩ [] [solved] []) (by simp) (by decide) ?_
    refine .object fun e he => ?_
    cases List.mem_singleton.1 he
    exact .child List.mem_cons_self (by decide) horder
  · refine (.member List.mem_cons_self ?_ : FamiliarEntry _ _ (memberKey zone.remote "a", _))
    refine .object fun e he => ?_
    cases List.mem_singleton.1 he
    exact (.member List.mem_cons_self htopology :
      FamiliarEntry _ _ (memberKey region.remote "x:y", _))
  · exact (.member List.mem_cons_self (.value rfl) :
      FamiliarEntry _ _ (memberKey zone.remote "", .null))

/-- The region of the solver keeps its key, since none is told one level down. -/
theorem nested_as_by_schema :
    nest collections given = .obj [
        ("Solver", .obj [("Region", .obj [("Order", .int 2)])]),
        ("Zone", .obj [
          ("a", .obj [("Region", .obj [("x:y", .obj [("Topology", .str "Solid")])])]),
          ("", .null)])] ∧
      (localNames root (nest collections given)).sorted = (toLocal root given).sorted ∧
      toLocal root given = .obj [
        ("zone", .obj [
          ("a", .obj [("region", .obj [("x:y", .obj [("topology", .str "Solid")])])]),
          ("", .null)]),
        ("solver", .obj [("region", .obj [("order", .int 2)])])] :=
  ⟨rfl, localNames_nest compiled separate .root collections_cover_root unique familiar, rfl⟩

end TwoPlaces

end Projection

end SettingsTree
