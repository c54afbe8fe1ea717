import SettingsTree.Proofs.Json.Alike
import SettingsTree.Proofs.Projection.Nested

/-! # Nesting loses nothing

A nested state can be flattened again, when it is known which types are collections at which depth:
the members under such a type go back to where the type stands, each under its own key. Flattening
undoes nesting up to the order of keys, as long as no key that nesting keeps is itself such a type.
-/

namespace SettingsTree.Projection

mutual
def flattenAt (types : CollectionTypes) (depth : Nat) : Json → Json
  | .obj state => .obj (flattenEntries types depth state)
  | value => value
def flattenEntries (types : CollectionTypes) (depth : Nat) : List (String × Json) → Keyed Json
  | [] => []
  | entry :: rest => flattenEntry types depth entry ++ flattenEntries types depth rest
/-- Flatten an entry. What stands under the type of a collection are its members. -/
def flattenEntry (types : CollectionTypes) (depth : Nat) : String × Json → Keyed Json
  | (key, value) =>
    if types.has depth key then flattenUnder types depth key value
    else [(key, flattenAt types (depth + 1) value)]
/-- Flatten what stands under the type of a collection. A value that is no object stays. -/
def flattenUnder (types : CollectionTypes) (depth : Nat) (type : String) : Json → Keyed Json
  | .obj members => flattenMembers types depth type members
  | value => [(type, value)]
def flattenMembers (types : CollectionTypes) (depth : Nat) (type : String) :
    List (String × Json) → Keyed Json
  | [] => []
  | member :: rest =>
    (memberKey type member.1, flattenAt types (depth + 2) member.2) ::
      flattenMembers types depth type rest
end

def flatten (types : CollectionTypes) (state : Json) : Json := flattenAt types 0 state

/-- The depth of what stands under a key. -/
def innerDepth (types : CollectionTypes) (depth : Nat) (key : String) : Nat :=
  if (nestedKey? types depth key).isSome then depth + 2 else depth + 1

/-- An object that is visited when a state is nested, with its depth. -/
inductive Visits (types : CollectionTypes) : Nat → Json → Nat → Keyed Json → Prop
  | here {depth state} : Visits types depth (.obj state) depth state
  | inside {depth state entry below inner} : entry ∈ state →
      Visits types (innerDepth types depth entry.1) entry.2 below inner →
      Visits types depth (.obj state) below inner

/-- No key that is kept is a collection at its depth, in any object that is visited. -/
def Unclaimed (types : CollectionTypes) (depth : Nat) (state : Json) : Prop :=
  ∀ below inner, Visits types depth state below inner →
    ∀ entry ∈ inner, nestedKey? types below entry.1 = none → types.has below entry.1 = false

variable {types : CollectionTypes} {depth : Nat} {state out : Keyed Json} {type name : String}
  {entry : String × Json} {value : Json}

/-! ### Flattening entry by entry -/

theorem flattenEntries_eq (types : CollectionTypes) (depth : Nat) (state : Keyed Json) :
    flattenEntries types depth state = state.flatMap (flattenEntry types depth) := by
  induction state with
  | nil => rfl
  | cons entry rest ih => rw [flattenEntries, ih, List.flatMap_cons]

theorem flattenMembers_eq (types : CollectionTypes) (depth : Nat) (type : String)
    (members : Keyed Json) : flattenMembers types depth type members =
      members.map fun m => (memberKey type m.1, flattenAt types (depth + 2) m.2) := by
  induction members with
  | nil => rfl
  | cons member rest ih => rw [flattenMembers, ih, List.map_cons]

theorem flattenEntries_append (more : Keyed Json) : flattenEntries types depth (state ++ more) =
    flattenEntries types depth state ++ flattenEntries types depth more := by
  simp [flattenEntries_eq]

theorem flattenAt_of_value (h : value.members? = none) : flattenAt types depth value = value := by
  cases value with
  | obj members => simp [Json.members?] at h
  | _ => rfl

theorem flattenUnder_of_value (h : value.members? = none) :
    flattenUnder types depth type value = [(type, value)] := by
  cases value with
  | obj members => simp [Json.members?] at h
  | _ => rfl

theorem flattenEntry_kept (h : types.has depth name = false) (value : Json) :
    flattenEntry types depth (name, value) = [(name, flattenAt types (depth + 1) value)] := by
  simp [flattenEntry, h]

theorem flattenEntry_nested (h : types.has depth type = true) (members : Keyed Json) :
    flattenEntry types depth (type, .obj members) =
      members.map fun m => (memberKey type m.1, flattenAt types (depth + 2) m.2) := by
  rw [flattenEntry, if_pos h, flattenUnder, flattenMembers_eq]

/-! ### Objects that are visited -/

theorem innerDepth_kept (h : nestedKey? types depth name = none) :
    innerDepth types depth name = depth + 1 := by simp [innerDepth, h]

theorem innerDepth_nested {key : String} (h : nestedKey? types depth key = some (type, name)) :
    innerDepth types depth key = depth + 2 := by simp [innerDepth, h]

theorem not_visits_of_value (h : value.members? = none) {below : Nat} {inner : Keyed Json} :
    ¬Visits types depth value below inner := by
  intro hvisits
  cases hvisits with
  | here => cases h
  | inside => cases h

/-- What holds of every object that is visited in a state holds of the state and of every object
that is visited under one of its keys. -/
theorem forall_visits_obj_iff {P : Nat → Keyed Json → Prop} :
    (∀ below inner, Visits types depth (.obj state) below inner → P below inner) ↔
      P depth state ∧ ∀ e ∈ state, ∀ below inner,
        Visits types (innerDepth types depth e.1) e.2 below inner → P below inner := by
  constructor
  · intro h
    exact ⟨h _ _ .here, fun e he below inner hvisits => h _ _ (.inside he hvisits)⟩
  · rintro ⟨hhere, hinside⟩ below inner hvisits
    cases hvisits with
    | here => exact hhere
    | inside he hvisits => exact hinside _ he _ _ hvisits

theorem unclaimed_of_value (h : value.members? = none) : Unclaimed types depth value :=
  fun _ _ hvisits => absurd hvisits (not_visits_of_value h)

theorem unclaimed_obj_iff : Unclaimed types depth (.obj state) ↔ ∀ e ∈ state,
    (nestedKey? types depth e.1 = none → types.has depth e.1 = false) ∧
      Unclaimed types (innerDepth types depth e.1) e.2 := by
  rw [Unclaimed, forall_visits_obj_iff, ← forall₂_and]
  rfl

/-! ### One entry -/

/-- Write one entry of a state where nesting writes it. -/
def nestEntry (types : CollectionTypes) (depth : Nat) (entry : String × Json)
    (out : Keyed Json) : Keyed Json :=
  match nestedKey? types depth entry.1 with
  | some (type, name) => insertNested type name (nestAt types (depth + 2) entry.2) out
  | none => Keyed.insert entry.1 (nestAt types (depth + 1) entry.2) out

theorem nestEntries_cons (entry : String × Json) (rest out : Keyed Json) :
    nestEntries types depth (entry :: rest) out =
      nestEntries types depth rest (nestEntry types depth entry out) := by
  rw [nestEntries]
  rfl

/-- Under the type of a collection there is always an object. -/
def Grouped (types : CollectionTypes) (depth : Nat) (out : Keyed Json) : Prop :=
  ∀ e ∈ out, types.has depth e.1 = true → ∃ members, e.2 = .obj members

/-- An entry as it comes back when it was nested and flattened again. -/
def restored (types : CollectionTypes) (depth : Nat) (entry : String × Json) : String × Json :=
  let inner := innerDepth types depth entry.1
  (entry.1, flattenAt types inner (nestAt types inner entry.2))

theorem restored_kept (h : nestedKey? types depth entry.1 = none) : restored types depth entry =
    (entry.1, flattenAt types (depth + 1) (nestAt types (depth + 1) entry.2)) := by
  rw [restored, innerDepth_kept h]

theorem restored_nested (h : nestedKey? types depth entry.1 = some (type, name)) :
    restored types depth entry =
      (memberKey type name, flattenAt types (depth + 2) (nestAt types (depth + 2) entry.2)) := by
  have hkey := memberOf?_eq_some_iff.1 (nestedKey?_eq_some_iff.1 h).1
  rw [restored, innerDepth_nested h, hkey.1]

theorem grouped_nestEntry (grouped : Grouped types depth out)
    (unclaimed : nestedKey? types depth entry.1 = none → types.has depth entry.1 = false) :
    Grouped types depth (nestEntry types depth entry out) := by
  intro e he hhas
  unfold nestEntry at he
  split at he
  · rcases Keyed.mem_insert he with rfl | he
    · exact ⟨_, rfl⟩
    · exact grouped e he hhas
  · next hkept =>
    rcases Keyed.mem_insert he with rfl | he
    · simp [unclaimed hkept] at hhas
    · exact grouped e he hhas

theorem mem_names_flattenEntries (h : types.has depth name = false) (mem : name ∈ Keyed.names out) :
    name ∈ Keyed.names (flattenEntries types depth out) := by
  obtain ⟨⟨key, value⟩, he, rfl⟩ := List.mem_map.1 mem
  rw [flattenEntries_eq, Keyed.names, List.map_flatMap, List.mem_flatMap]
  exact ⟨_, he, by simp [flattenEntry_kept h]⟩

/-- A member that is written adds its entry: as the object under its type is found, all that stands
in it stands in the flattened state under a key of its own. -/
theorem flattenEntries_insertNested (grouped : Grouped types depth out)
    (registered : types.has depth type = true) (value : Json)
    (fresh : memberKey type name ∉ Keyed.names (flattenEntries types depth out)) :
    (flattenEntries types depth (insertNested type name value out)).Perm
      (flattenEntries types depth out ++
        [(memberKey type name, flattenAt types (depth + 2) value)]) := by
  unfold insertNested membersUnder
  cases hthere : Keyed.get? type out with
  | none =>
    rw [Keyed.insert_of_not_mem (Keyed.get?_eq_none_iff.1 hthere), flattenEntries_append]
    simp [flattenEntries, flattenEntry_nested registered, Keyed.insert]
  | some old =>
    obtain ⟨before, after, rfl, hinsert⟩ := Keyed.exists_append_of_get? hthere
    obtain ⟨members, rfl⟩ := grouped (type, old) (by simp) registered
    rw [flattenEntries_append, flattenEntries, flattenEntry_nested registered] at fresh ⊢
    have hnew : name ∉ Keyed.names members := by
      intro h
      apply fresh
      obtain ⟨m, hm, rfl⟩ := List.mem_map.1 h
      simp only [Keyed.names_append, List.mem_append]
      right; left
      simp only [Keyed.names, List.map_map]
      exact List.mem_map_of_mem hm
    simp only [Option.bind_some, Json.members?, Option.getD_some]
    rw [hinsert, Keyed.insert_of_not_mem hnew, flattenEntries_append, flattenEntries,
      flattenEntry_nested registered, List.map_append]
    simp only [List.append_assoc]
    apply List.Perm.append_left
    apply List.Perm.append_left
    exact List.perm_append_comm

theorem flattenEntries_nestEntry (grouped : Grouped types depth out)
    (unclaimed : nestedKey? types depth entry.1 = none → types.has depth entry.1 = false)
    (fresh : entry.1 ∉ Keyed.names (flattenEntries types depth out)) :
    (flattenEntries types depth (nestEntry types depth entry out)).Perm
      (flattenEntries types depth out ++ [restored types depth entry]) := by
  unfold nestEntry
  cases hnested : nestedKey? types depth entry.1 with
  | none =>
    have hkept := unclaimed hnested
    have hnew : entry.1 ∉ Keyed.names out := fun h => fresh (mem_names_flattenEntries hkept h)
    dsimp only
    rw [Keyed.insert_of_not_mem hnew, flattenEntries_append, restored_kept hnested,
      ← flattenEntry_kept hkept]
    simp [flattenEntries]
  | some parts =>
    obtain ⟨hmember, registered⟩ := nestedKey?_eq_some_iff.1 hnested
    rw [(memberOf?_eq_some_iff.1 hmember).1] at fresh
    rw [restored_nested hnested]
    exact flattenEntries_insertNested grouped registered _ fresh

theorem flattenEntries_nestEntries (grouped : Grouped types depth out)
    (unclaimed : ∀ e ∈ state, nestedKey? types depth e.1 = none → types.has depth e.1 = false)
    (distinct : Keyed.Distinct (flattenEntries types depth out ++ state)) :
    (flattenEntries types depth (nestEntries types depth state out)).Perm
      (flattenEntries types depth out ++ state.map (restored types depth)) := by
  induction state generalizing out with
  | nil => simp [nestEntries]
  | cons entry rest ih =>
    have hentry := unclaimed entry List.mem_cons_self
    have hfresh : entry.1 ∉ Keyed.names (flattenEntries types depth out) := by
      intro h
      rw [Keyed.Distinct, Keyed.names_append, List.nodup_append] at distinct
      exact distinct.2.2 _ h _ List.mem_cons_self rfl
    have hstep := flattenEntries_nestEntry grouped hentry hfresh
    have hdistinct : Keyed.Distinct
        (flattenEntries types depth (nestEntry types depth entry out) ++ rest) := by
      have hnames := (hstep.append_right rest).map Prod.fst
      apply hnames.nodup_iff.2
      simpa [Keyed.Distinct, Keyed.names, restored] using distinct
    rw [nestEntries_cons, List.map_cons]
    have hrest := ih (grouped_nestEntry grouped hentry)
      (fun e he => unclaimed e (List.mem_cons_of_mem _ he)) hdistinct
    apply (hrest.trans (hstep.append_right _)).trans
    simp

/-! ### Whole states -/

/-- A state without repeated keys comes back when it was nested and flattened again. -/
theorem flattenAt_nestAt (unique : value.Unique) (unclaimed : Unclaimed types depth value) :
    (flattenAt types depth (nestAt types depth value)).Unique ∧
      (flattenAt types depth (nestAt types depth value)).sorted = value.sorted := by
  induction value generalizing depth with
  | obj state ih =>
    rw [unclaimed_obj_iff] at unclaimed
    have hback : ∀ e ∈ state, (restored types depth e).2.Unique ∧
        (restored types depth e).2.sorted = e.2.sorted :=
      fun e he => ih e he (unique.member he) (unclaimed e he).2
    have hempty : Grouped types depth [] := by simp [Grouped]
    have hperm := flattenEntries_nestEntries hempty (fun e he => (unclaimed e he).1)
      (by simpa [flattenEntries] using unique.distinct)
    rw [flattenEntries, List.nil_append] at hperm
    have hnames : Keyed.names (state.map (restored types depth)) = Keyed.names state := by
      simp [Keyed.names, restored]
    have hdistinct : Keyed.Distinct
        (flattenEntries types depth (nestEntries types depth state [])) := by
      apply (hperm.map Prod.fst).nodup_iff.2
      rw [← Keyed.names, hnames]
      exact unique.distinct
    rw [nestAt, flattenAt]
    constructor
    · refine ⟨hdistinct, Json.uniqueMembers_iff.2 fun m hm => ?_⟩
      obtain ⟨e, he, rfl⟩ := List.mem_map.1 (hperm.mem_iff.1 hm)
      exact (hback e he).1
    · apply Json.sorted_obj_congr hdistinct
      apply (Json.sortedMembers_perm hperm).trans
      rw [Json.sortedMembers_eq, Json.sortedMembers_eq, List.map_map]
      apply List.Perm.of_eq
      exact List.map_congr_left fun e he => congrArg (Prod.mk e.1) (hback e he).2
  | _ => exact ⟨unique, rfl⟩

/-! ### Flattening does not depend on the order of keys -/

theorem sortedMembers_flattenEntry_congr {other : Json}
    (kept : (flattenAt types (depth + 1) value).Unique →
      (flattenAt types (depth + 1) value).sorted = (flattenAt types (depth + 1) other).sorted)
    (under : Json.UniqueMembers (flattenUnder types depth name value) →
      (Json.sortedMembers (flattenUnder types depth name value)).Perm
        (Json.sortedMembers (flattenUnder types depth name other)))
    (unique : Json.UniqueMembers (flattenEntry types depth (name, value))) :
    (Json.sortedMembers (flattenEntry types depth (name, value))).Perm
      (Json.sortedMembers (flattenEntry types depth (name, other))) := by
  by_cases h : types.has depth name = true
  · simp only [flattenEntry, h, if_true] at unique ⊢
    exact under unique
  · rw [flattenEntry_kept (by simpa using h)] at unique ⊢
    rw [flattenEntry_kept (by simpa using h)]
    simp [Json.sortedMembers, kept unique.1]

/-- States with one sorted form are flattened to states with one sorted form. What stands under the
type of a collection is not flattened like a state, so the two are proved together. -/
theorem sorted_flattenAt_congr {other : Json} (h : value.sorted = other.sorted) :
    ((flattenAt types depth value).Unique →
      (flattenAt types depth value).sorted = (flattenAt types depth other).sorted) ∧
    (∀ type, Json.UniqueMembers (flattenUnder types depth type value) →
      (Json.sortedMembers (flattenUnder types depth type value)).Perm
        (Json.sortedMembers (flattenUnder types depth type other))) := by
  induction value generalizing other depth with
  | obj as ih =>
    cases other with
    | obj bs =>
      have hperm := Json.sortedMembers_perm_of_sorted h
      rw [Json.sortedMembers_eq, Json.sortedMembers_eq] at hperm
      constructor
      · intro unique
        rw [flattenAt] at unique
        rw [flattenAt, flattenAt]
        apply Json.sorted_obj_congr unique.distinct
        rw [flattenEntries_eq] at unique ⊢
        rw [flattenEntries_eq, Json.sortedMembers_flatMap, Json.sortedMembers_flatMap]
        apply perm_flatMap_of_map hperm
        rintro ⟨key, v⟩ ha ⟨key', w⟩ hab
        obtain ⟨rfl, hvalue⟩ := Prod.mk.inj hab
        have hinside : Json.UniqueMembers (flattenEntry types depth (key, v)) := by
          rw [Json.uniqueMembers_iff]
          exact fun m hm => unique.member (List.mem_flatMap.2 ⟨_, ha, hm⟩)
        exact sortedMembers_flattenEntry_congr (ih _ ha hvalue).1 ((ih _ ha hvalue).2 key) hinside
      · intro type unique
        rw [flattenUnder, flattenMembers_eq] at unique ⊢
        rw [flattenUnder, flattenMembers_eq, Json.sortedMembers_eq, Json.sortedMembers_eq,
          List.map_map, List.map_map, List.map_eq_flatMap, List.map_eq_flatMap]
        apply perm_flatMap_of_map hperm
        rintro ⟨name, v⟩ ha ⟨name', w⟩ hab
        obtain ⟨rfl, hvalue⟩ := Prod.mk.inj hab
        have hinside := Json.uniqueMembers_iff.1 unique _ (List.mem_map_of_mem ha)
        have hbody := (ih _ ha hvalue).1 hinside
        simp [hbody]
    | _ => simp [Json.sorted] at h
  | _ =>
    have hother : other.members? = none := by cases other <;> simp_all [Json.sorted, Json.members?]
    rw [flattenAt_of_value hother]
    refine ⟨fun _ => h, fun type _ => ?_⟩
    rw [flattenUnder_of_value hother]
    simp [flattenUnder, Json.sortedMembers, h]

/-! ### The result -/

/-- Nesting loses nothing but the order of keys: it is undone by flattening, and so states that
become alike when they are nested were alike before. -/
theorem flatten_nest (types : CollectionTypes) :
    (∀ state : Json, state.Unique → Unclaimed types 0 state →
      (flatten types (nest types state)).Unique ∧
        (flatten types (nest types state)).sorted = state.sorted) ∧
    (∀ state other : Json, state.Unique → other.Unique →
      Unclaimed types 0 state → Unclaimed types 0 other →
      (nest types state).sorted = (nest types other).sorted → state.sorted = other.sorted) := by
  constructor
  · intro state unique unclaimed
    exact flattenAt_nestAt unique unclaimed
  · intro state other uniqueState uniqueOther unclaimedState unclaimedOther h
    have hstate := flattenAt_nestAt uniqueState unclaimedState
    have hother := flattenAt_nestAt uniqueOther unclaimedOther
    calc state.sorted = (flatten types (nest types state)).sorted := hstate.2.symm
      _ = (flatten types (nest types other)).sorted :=
        (sorted_flattenAt_congr h).1 hstate.1
      _ = other.sorted := hother.2

namespace Scattered

/-- Regions stand at the top, their zones two levels down. -/
def collections : CollectionTypes := [(0, ["Region"]), (2, ["Zone"])]

/-- At this depth zones are no collection, and a key may be their type. -/
def mesh : Json := .obj [("Zone:a", .null), ("Zone", .arr [])]

def fluid : Json :=
  .obj [("Zone:wall:left", .obj [("gap", .int 1)]), ("mesh", mesh), ("Zone:", .null)]

def given : Json := .obj [("Region:fluid", fluid), ("Zone:top", .bool true), ("Region:", .null)]

def reordered : Json := .obj [("Region:fluid", fluid), ("Region:", .null), ("Zone:top", .bool true)]

theorem unique_fluid : fluid.Unique := by
  simp [fluid, mesh, Json.Unique, Json.UniqueMembers, Json.UniqueItems, Keyed.Distinct, Json.int]

theorem unclaimed_fluid : Unclaimed collections 2 fluid := by
  have hwall : Unclaimed collections 4 (.obj [("gap", .int 1)]) := by
    rw [unclaimed_obj_iff, List.forall_mem_singleton]
    exact ⟨by decide +kernel, unclaimed_of_value rfl⟩
  have hmesh : Unclaimed collections 3 mesh := by
    rw [mesh, unclaimed_obj_iff, List.forall_mem_cons, List.forall_mem_singleton]
    exact ⟨⟨by decide +kernel, unclaimed_of_value rfl⟩, by decide +kernel, unclaimed_of_value rfl⟩
  rw [fluid, unclaimed_obj_iff, List.forall_mem_cons, List.forall_mem_cons,
    List.forall_mem_singleton]
  exact ⟨⟨by decide +kernel, hwall⟩, ⟨by decide +kernel, hmesh⟩, by decide +kernel,
    unclaimed_of_value rfl⟩

def nested : Json := .obj [
  ("Region", .obj [
    ("fluid", .obj [
      ("Zone", .obj [("wall:left", .obj [("gap", .int 1)]), ("", .null)]), ("mesh", mesh)]),
    ("", .null)]),
  ("Zone:top", .bool true)]

/-- The regions come together, wherever they stood. -/
theorem flatten_nest_scattered :
    nest collections given = nested ∧
      flatten collections nested = .obj [
        (memberKey "Region" "fluid", .obj [
          (memberKey "Zone" "wall:left", .obj [("gap", .int 1)]), (memberKey "Zone" "", .null),
          ("mesh", mesh)]),
        (memberKey "Region" "", .null), ("Zone:top", .bool true)] ∧
      (flatten collections (nest collections given)).sorted = given.sorted ∧
      given.sorted = reordered.sorted := by
  have htop : Unclaimed collections 1 (.bool true) := unclaimed_of_value rfl
  have hunnamed : Unclaimed collections 2 .null := unclaimed_of_value rfl
  have unclaimedGiven : Unclaimed collections 0 given := by
    rw [given, unclaimed_obj_iff, List.forall_mem_cons, List.forall_mem_cons,
      List.forall_mem_singleton]
    exact ⟨⟨by decide +kernel, unclaimed_fluid⟩, ⟨by decide +kernel, htop⟩, by decide +kernel,
      hunnamed⟩
  have unclaimedReordered : Unclaimed collections 0 reordered := by
    rw [reordered, unclaimed_obj_iff, List.forall_mem_cons, List.forall_mem_cons,
      List.forall_mem_singleton]
    exact ⟨⟨by decide +kernel, unclaimed_fluid⟩, ⟨by decide +kernel, hunnamed⟩, by decide +kernel,
      htop⟩
  have uniqueGiven : given.Unique := by
    simp [given, Json.Unique, Json.UniqueMembers, Keyed.Distinct, unique_fluid]
  have uniqueReordered : reordered.Unique := by
    simp [reordered, Json.Unique, Json.UniqueMembers, Keyed.Distinct, unique_fluid]
  have hnested : nest collections given = nest collections reordered := rfl
  obtain ⟨lossless, injective⟩ := flatten_nest collections
  refine ⟨rfl, ?_, (lossless given uniqueGiven unclaimedGiven).2,
    injective given reordered uniqueGiven uniqueReordered unclaimedGiven unclaimedReordered
      (congrArg Json.sorted hnested)⟩
  -- no zones are found at the depth of the mesh
  simp [flatten, flattenAt, flattenEntries, flattenEntry, flattenUnder, flattenMembers, nested,
    mesh, collections, CollectionTypes.has, Json.int]

end Scattered

end SettingsTree.Projection
