import SettingsTree.Proofs.Json.Unique
import SettingsTree.Proofs.Keyed
import SettingsTree.Proofs.Path.MemberKey
import SettingsTree.Proofs.Projection.Separate

/-! # Projected states as blocks of entries

Each member of a container accounts for one block of entries of a projected state, and the state is
what comes of writing the blocks one after the other. Local entries are told apart by their names;
remote entries by the type to which their key belongs.
-/

namespace SettingsTree.Projection

open Descriptor

variable {state out : Keyed Json}

/-- The entry that a property accounts for: its value, if there is one, under another key. -/
def propertyEntries (source target : Descriptor → String) (state : Keyed Json) (p : Descriptor) :
    Keyed Json :=
  (Keyed.get? (source p) state).toList.map (target p, ·)

def nonemptyEntry (name : String) (members : Keyed Json) : Keyed Json :=
  if members.isEmpty then [] else [(name, .obj members)]

/-- The entries of a local state that a child accounts for. -/
def localEntries (state : Keyed Json) : Descriptor → Keyed Json
  | .collection label template =>
    nonemptyEntry label.localName (gather template.remote (toLocal template) state)
  | child => (Keyed.get? child.remote state).toList.map fun v => (child.localName, toLocal child v)

def remoteEntries (state : Keyed Json) : Descriptor → Keyed Json
  | .collection label template =>
    (membersUnder label.localName state).map fun m =>
      (memberKey template.remote m.1, toRemote template m.2)
  | child => (Keyed.get? child.localName state).toList.map fun v => (child.remote, toRemote child v)

/-- The blocks of a container's members under one of their names. -/
def blocks (name source : Descriptor → String) (entries : Descriptor → Keyed Json)
    (state : Keyed Json) (properties children : List Descriptor) : Keyed (Keyed Json) :=
  properties.map (fun p => (name p, propertyEntries source name state p)) ++
    children.map fun c => (name c, entries c)

theorem copyProperties_eq (source target : Descriptor → String) (state : Keyed Json)
    (properties : List Descriptor) (out : Keyed Json) :
    copyProperties source target state properties out =
      Keyed.insertAll out (properties.flatMap (propertyEntries source target state)) := by
  induction properties generalizing out with
  | nil => rfl
  | cons p rest ih =>
    rw [copyProperties, ih, List.flatMap_cons, Keyed.insertAll_append, propertyEntries]
    cases Keyed.get? (source p) state <;> rfl

theorem insertNonempty_eq (name : String) (members out : Keyed Json) :
    insertNonempty name members out = Keyed.insertAll out (nonemptyEntry name members) := by
  unfold insertNonempty nonemptyEntry
  split <;> rfl

theorem childrenToLocal_eq (children : List Descriptor) (state out : Keyed Json) :
    childrenToLocal children state out =
      Keyed.insertAll out (children.flatMap (localEntries state)) := by
  induction children generalizing out with
  | nil => rfl
  | cons child rest ih =>
    rw [List.flatMap_cons, Keyed.insertAll_append]
    cases child with
    | collection label template => rw [childrenToLocal, ih, insertNonempty_eq, localEntries]
    | _ =>
      rw [childrenToLocal, ih, localEntries]
      · split <;> next h => rw [h]; rfl
      all_goals simp

theorem childrenToRemote_eq (children : List Descriptor) (state out : Keyed Json) :
    childrenToRemote children state out =
      Keyed.insertAll out (children.flatMap (remoteEntries state)) := by
  induction children generalizing out with
  | nil => rfl
  | cons child rest ih =>
    rw [List.flatMap_cons, Keyed.insertAll_append]
    cases child with
    | collection label template => rw [childrenToRemote, ih, scatter, remoteEntries]
    | _ =>
      rw [childrenToRemote, ih, remoteEntries]
      · split <;> next h => rw [h]; rfl
      all_goals simp

/-- The local state of a container, block by block. -/
def localState (properties children : List Descriptor) (state : Keyed Json) : Keyed Json :=
  (blocks Descriptor.localName remote (localEntries state) state properties
    children).flatMap Prod.snd

def remoteState (properties children : List Descriptor) (state : Keyed Json) : Keyed Json :=
  (blocks remote Descriptor.localName (remoteEntries state) state properties
    children).flatMap Prod.snd

theorem flatMap_blocks (name source : Descriptor → String) (entries : Descriptor → Keyed Json)
    (state : Keyed Json) (properties children : List Descriptor) :
    (blocks name source entries state properties children).flatMap Prod.snd =
      properties.flatMap (propertyEntries source name state) ++ children.flatMap entries := by
  simp [blocks, List.flatMap_map]

theorem toLocal_container (label : Label) (properties children commands : List Descriptor)
    (state : Keyed Json) :
    toLocal (.container label properties children commands) (.obj state) =
      .obj (Keyed.ofList (localState properties children state)) := by
  rw [toLocal, copyProperties_eq, childrenToLocal_eq, ← Keyed.insertAll_append, localState,
    flatMap_blocks]
  rfl

theorem toRemote_container (label : Label) (properties children commands : List Descriptor)
    (state : Keyed Json) :
    toRemote (.container label properties children commands) (.obj state) =
      .obj (Keyed.ofList (remoteState properties children state)) := by
  rw [toRemote, copyProperties_eq, childrenToRemote_eq, ← Keyed.insertAll_append, remoteState,
    flatMap_blocks]
  rfl

theorem toLocal_collection (label : Label) (template : Descriptor) (state : Keyed Json) :
    toLocal (.collection label template) (.obj state) =
      .obj (Keyed.ofList (localEntries state (.collection label template))) := by
  rw [toLocal, insertNonempty_eq, localEntries, Keyed.ofList]

theorem toRemote_collection (label : Label) (template : Descriptor) (state : Keyed Json) :
    toRemote (.collection label template) (.obj state) =
      .obj (Keyed.ofList (remoteEntries state (.collection label template))) := by
  rw [toRemote, scatter, remoteEntries, Keyed.ofList]

theorem names_blocks (name source : Descriptor → String) (entries : Descriptor → Keyed Json)
    (state : Keyed Json) (properties children : List Descriptor) :
    Keyed.names (blocks name source entries state properties children) =
      (properties ++ children).map name := by
  simp [blocks, Keyed.names, Function.comp_def]

theorem distinct_blocks {name : Descriptor → String} (source : Descriptor → String)
    (entries : Descriptor → Keyed Json) (state : Keyed Json) {properties children : List Descriptor}
    (h : ((properties ++ children).map name).Nodup) :
    Keyed.Distinct (blocks name source entries state properties children) := by
  rwa [Keyed.Distinct, names_blocks]

section

variable {name source : Descriptor → String} {entries : Descriptor → Keyed Json}
  {properties children : List Descriptor}

theorem property_mem_blocks {p : Descriptor} (mem : p ∈ properties) :
    (name p, propertyEntries source name state p) ∈
      blocks name source entries state properties children :=
  List.mem_append_left _ (List.mem_map.2 ⟨p, mem, rfl⟩)

theorem child_mem_blocks {c : Descriptor} (mem : c ∈ children) :
    (name c, entries c) ∈ blocks name source entries state properties children :=
  List.mem_append_right _ (List.mem_map.2 ⟨c, mem, rfl⟩)

/-- What holds of the block of every property and of every child holds of every block. -/
theorem forall_blocks (P : String → Keyed Json → Prop)
    (hp : ∀ p ∈ properties, P (name p) (propertyEntries source name state p))
    (hc : ∀ c ∈ children, P (name c) (entries c)) :
    ∀ block ∈ blocks name source entries state properties children, P block.1 block.2 := by
  intro block hblock
  rcases List.mem_append.1 hblock with h | h
  · obtain ⟨p, hmem, rfl⟩ := List.mem_map.1 h
    exact hp p hmem
  · obtain ⟨c, hmem, rfl⟩ := List.mem_map.1 h
    exact hc c hmem

end

@[simp] theorem get?_propertyEntries (source target : Descriptor → String) (state : Keyed Json)
    (p : Descriptor) :
    Keyed.get? (target p) (propertyEntries source target state p) =
      Keyed.get? (source p) state := by
  cases h : Keyed.get? (source p) state <;> simp [propertyEntries, h]

theorem mem_propertyEntries {source target : Descriptor → String} {p : Descriptor}
    {e : String × Json} (h : e ∈ propertyEntries source target state p) : e.1 = target p := by
  obtain ⟨v, -, rfl⟩ := List.mem_map.1 h
  rfl

theorem distinct_propertyEntries (source target : Descriptor → String) (state : Keyed Json)
    (p : Descriptor) : Keyed.Distinct (propertyEntries source target state p) :=
  Keyed.distinct_toList _ _ _

theorem mem_nonemptyEntry {name : String} {members : Keyed Json} {e : String × Json}
    (h : e ∈ nonemptyEntry name members) : e.1 = name := by
  unfold nonemptyEntry at h
  split at h
  · simp at h
  · rw [List.mem_singleton.1 h]

theorem distinct_nonemptyEntry (name : String) (members : Keyed Json) :
    Keyed.Distinct (nonemptyEntry name members) := by
  unfold nonemptyEntry
  split <;> simp [Keyed.Distinct]

@[simp] theorem membersUnder_nonemptyEntry (name : String) (members : Keyed Json) :
    membersUnder name (nonemptyEntry name members) = members := by
  unfold membersUnder nonemptyEntry
  split
  · next h => simp [List.isEmpty_iff.1 h]
  · simp [Json.members?]

theorem unique_of_get? {name : String} {value : Json} (unique : (Json.obj state).Unique)
    (h : Keyed.get? name state = some value) : value.Unique :=
  unique.member (Keyed.mem_of_get? h)

theorem unique_membersUnder (name : String) (unique : (Json.obj state).Unique) :
    (Json.obj (membersUnder name state)).Unique := by
  cases h : Keyed.get? name state with
  | none => simp [membersUnder, h, Json.Unique, Json.UniqueMembers, Keyed.Distinct]
  | some value =>
    have hvalue := unique_of_get? unique h
    cases value with
    | obj members => simpa [membersUnder, h, Json.members?] using hvalue
    | _ => simp [membersUnder, h, Json.members?, Json.Unique, Json.UniqueMembers, Keyed.Distinct]

theorem gather_filter (type : String) (project : Json → Json) (state : Keyed Json) :
    gather type project (state.filter fun e => keyType e.1 = type) =
      gather type project state := by
  rw [gather, gather, List.filterMap_filter]
  congr 2
  funext e
  by_cases h : keyType e.1 = type
  · simp [h]
  · have hnone : memberOf? type e.1 = none := by
      rw [Option.eq_none_iff_forall_ne_some]
      exact fun name hname => h (keyType_of_memberOf? hname)
    simp [h, hnone]

/-- Members that were written into a remote state are gathered again, each under its name. -/
theorem gather_scattered {type : String} (plain : Plain type) {members : Keyed Json}
    (distinct : Keyed.Distinct members) (back forth : Json → Json) :
    gather type back (members.map fun m => (memberKey type m.1, forth m.2)) =
      members.map fun m => (m.1, back (forth m.2)) := by
  rw [gather, List.filterMap_map]
  simp only [Function.comp_def, memberOf?_memberKey plain, Option.map_some]
  rw [List.filterMap_eq_map']
  apply Keyed.ofList_of_distinct
  simpa [Keyed.Distinct, Keyed.names, Function.comp_def] using distinct

def listed (type : String) (project : Json → Json) (state : Keyed Json) : Keyed Json :=
  state.filterMap fun e => (memberOf? type e.1).map fun name => (name, project e.2)

/-- Entries of one type have different member names when they have different keys. -/
theorem distinct_listed (distinct : Keyed.Distinct state) (type : String)
    (project : Json → Json) : Keyed.Distinct (listed type project state) := by
  have hnames : ((Keyed.names state).filterMap (memberOf? type)).Nodup := by
    apply distinct.filterMap
    intro a b name ha hb
    rw [(memberOf?_eq_some_iff.1 ha).1, (memberOf?_eq_some_iff.1 hb).1]
  rw [Keyed.names, List.filterMap_map] at hnames
  simpa [listed, Keyed.Distinct, Keyed.names, List.map_filterMap, Function.comp_def] using hnames

theorem gather_eq (distinct : Keyed.Distinct state) (type : String) (project : Json → Json) :
    gather type project state = listed type project state :=
  Keyed.ofList_of_distinct (distinct_listed distinct type project)

theorem distinct_gather (distinct : Keyed.Distinct state) (type : String)
    (project : Json → Json) : Keyed.Distinct (gather type project state) := by
  rw [gather_eq distinct]
  exact distinct_listed distinct type project

/-- Members that were gathered from a remote state are written back under their keys. -/
theorem scatter_gathered (distinct : Keyed.Distinct state) (type : String)
    (back forth : Json → Json) :
    (gather type back state).map (fun m => (memberKey type m.1, forth m.2)) =
      (state.filter fun e => (memberOf? type e.1).isSome).map fun e => (e.1, forth (back e.2)) := by
  rw [gather_eq distinct, listed]
  clear distinct
  induction state with
  | nil => rfl
  | cons e rest ih =>
    cases hname : memberOf? type e.1 with
    | none => simpa [hname] using ih
    | some name =>
      have hkey := (memberOf?_eq_some_iff.1 hname).1
      simpa [hname, ← hkey] using ih

end SettingsTree.Projection
