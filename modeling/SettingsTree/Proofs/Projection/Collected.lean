import SettingsTree.Proofs.Projection.Container

/-! # Collections projected from three places

The state of a collection can be read with the container that has the collection, by the descriptor
of the collection, or at the collection's own path. The first two take the members from among other
entries, by the type in their keys; the third one takes every entry for a member. What the first two
find is what the third one makes of the entries of that type alone, and all three write the same
remote form.
-/

namespace SettingsTree.Projection

open Descriptor

variable {label outer : Label} {template : Descriptor}
  {properties children commands : List Descriptor}

/-- The entries whose key is split at its first colon into this type and a name. -/
def ofType (type : String) (state : Keyed Json) : Keyed Json :=
  state.filter fun e => (splitMemberKey e.1).any fun parts => parts.1 = type

/-- What the entries of a collection's type are at the collection's own path, if there are any. -/
def collected? (collection : Descriptor) (state : Keyed Json) : Option Json :=
  match ofType collection.remote state with
  | [] => none
  | own => some (collectionToLocal collection (.obj own))

/-! ### Local states -/

theorem filterMap_memberOf?_eq (type : String) (project : Json → Json) (state : Keyed Json) :
    (state.filterMap fun e => (memberOf? type e.1).map fun name => (name, project e.2)) =
      (ofType type state).map fun e => ((memberOf? type e.1).getD e.1, project e.2) := by
  induction state with
  | nil => rfl
  | cons e rest ih =>
    rw [List.filterMap_cons, ih]
    cases hsplit : splitMemberKey e.1 with
    | none => simp [ofType, memberOf?, hsplit]
    | some parts =>
      by_cases htype : parts.1 = type
      · simp [ofType, memberOf?, hsplit, htype]
      · simp [ofType, memberOf?, hsplit, htype]

theorem gather_eq_ofType (type : String) (project : Json → Json) (state : Keyed Json) :
    gather type project state = Keyed.ofList
      ((ofType type state).map fun e => ((memberOf? type e.1).getD e.1, project e.2)) := by
  rw [gather, filterMap_memberOf?_eq]

/-- What a container writes for a collection is what is collected for it, if anything is. -/
theorem localEntries_collection (same : template.label = label) (state : Keyed Json) :
    localEntries state (.collection label template) =
      (collected? (.collection label template) state).toList.map (label.localName, ·) := by
  have hremote : template.remote = label.remote := congrArg Label.remote same
  rw [localEntries, gather_eq_ofType, hremote, collected?,
    show (collection label template).remote = label.remote from rfl]
  cases hown : ofType label.remote state with
  | nil => rfl
  | cons e rest =>
    have hnonempty : Keyed.ofList ((e :: rest).map fun e =>
        ((memberOf? label.remote e.1).getD e.1, toLocal template e.2)) ≠ [] := by
      rw [Ne, Keyed.ofList_eq_nil_iff]
      exact List.cons_ne_nil _ _
    rw [nonemptyEntry, if_neg (by rwa [List.isEmpty_iff])]
    rfl

/-! ### Remote states -/

/-- When the elements of a list have different names and only one of them has a block that is not
empty, its block is all there is. -/
theorem flatMap_eq_of_name {α β : Type} {name : α → String} {block : α → List β} {l : List α}
    {a : α} (distinct : (l.map name).Nodup) (mem : a ∈ l)
    (others : ∀ b ∈ l, name b ≠ name a → block b = []) : l.flatMap block = block a := by
  obtain ⟨front, rest, rfl⟩ := List.append_of_mem mem
  rw [List.map_append, List.map_cons, List.nodup_append, List.nodup_cons] at distinct
  obtain ⟨-, ⟨hrest, -⟩, hfront⟩ := distinct
  have before : front.flatMap block = [] := List.flatMap_eq_nil_iff.2 fun b hb =>
    others b (List.mem_append_left _ hb)
      (hfront _ (List.mem_map_of_mem hb) _ List.mem_cons_self)
  have after : rest.flatMap block = [] := List.flatMap_eq_nil_iff.2 fun b hb =>
    others b (List.mem_append_right _ (List.mem_cons_of_mem _ hb))
      fun heq => hrest (heq ▸ List.mem_map_of_mem hb)
  rw [List.flatMap_append, List.flatMap_cons, before, after, List.append_nil, List.nil_append]

theorem remoteEntries_of_absent {state : Keyed Json} {c : Descriptor}
    (absent : Keyed.get? c.localName state = none) : remoteEntries state c = [] := by
  cases c with
  | collection label template =>
    have habsent : Keyed.get? label.localName state = none := absent
    simp [remoteEntries, membersUnder, habsent]
  | _ => simp [remoteEntries, absent]

/-- A local state that has one collection has the remote form of this collection. -/
theorem remoteState_singleton (locals : ((properties ++ children).map Descriptor.localName).Nodup)
    {c : Descriptor} (mem : c ∈ children) (value : Json) :
    remoteState properties children [(c.localName, value)] =
      remoteEntries [(c.localName, value)] c := by
  rw [List.map_append, List.nodup_append] at locals
  obtain ⟨-, hchildren, hne⟩ := locals
  have hproperties : properties.flatMap
      (propertyEntries Descriptor.localName remote [(c.localName, value)]) = [] := by
    refine List.flatMap_eq_nil_iff.2 fun p hp => ?_
    have hother := hne _ (List.mem_map_of_mem hp) _ (List.mem_map_of_mem mem)
    rw [propertyEntries, Keyed.get?_cons, if_neg (Ne.symm hother)]
    rfl
  rw [remoteState, flatMap_blocks, hproperties, List.nil_append]
  refine flatMap_eq_of_name hchildren mem fun b _ hother => remoteEntries_of_absent ?_
  rw [Keyed.get?_cons, if_neg (Ne.symm hother), Keyed.get?_nil]

theorem collectionToRemote_eq (label : Label) (template : Descriptor) (members : Keyed Json) :
    collectionToRemote (.collection label template) (.obj members) =
      .obj (Keyed.ofList
        (remoteEntries [(label.localName, .obj members)] (.collection label template))) := by
  rw [collectionToRemote, scatter, remoteEntries, membersUnder, Keyed.get?_cons_self]
  rfl

/-- The three projections of a collection that a container of a compiled schema has agree. Read
with the container, or by its own descriptor, a collection has what the entries of its type are at
its own path, and is absent when there are none. Written alone, it has one remote form. -/
theorem collection_projections_agree {raw : Json} {rootType : String} {options : Options}
    {schema : Compiled} (compiled : compile raw rootType options = .ok schema)
    (hd : schema.root.Reaches (.container outer properties children commands))
    (mem : .collection label template ∈ children) :
    (∀ state, ∃ found,
      toLocal (.container outer properties children commands) (.obj state) = .obj found ∧
        Keyed.Distinct found ∧
        Keyed.get? label.localName found = collected? (.collection label template) state ∧
        toLocal (.collection label template) (.obj state) =
          .obj ((collected? (.collection label template) state).toList.map
            (label.localName, ·))) ∧
    ∀ members,
      toRemote (.container outer properties children commands)
          (.obj [(label.localName, .obj members)]) =
        collectionToRemote (.collection label template) (.obj members) ∧
      toRemote (.collection label template) (.obj [(label.localName, .obj members)]) =
        collectionToRemote (.collection label template) (.obj members) := by
  have locals := (described_of_compile compiled hd).locals_nodup
  have same := (described_of_compile compiled (.child mem hd)).template_label
  refine ⟨fun state => ⟨localState properties children state, ?_, distinct_localState locals,
    ?_, ?_⟩, fun members => ⟨?_, ?_⟩⟩
  · rw [toLocal_container, Keyed.ofList_of_distinct (distinct_localState locals)]
  · rw [get?_localState_collection locals mem, localEntries_collection same]
    cases collected? (.collection label template) state with
    | none => rfl
    | some value => exact Keyed.get?_cons_self _ _ _
  · rw [toLocal_collection, Keyed.ofList_of_distinct (distinct_localEntries _ _),
      localEntries_collection same]
  · rw [toRemote_container, collectionToRemote_eq]
    exact congrArg (fun entries => Json.obj (Keyed.ofList entries))
      (remoteState_singleton locals mem _)
  · rw [toRemote_collection, collectionToRemote_eq]

/-- A state with members of the collection among other entries, and one without any; a member whose
name has a colon. -/
theorem collection_projections_agree_sample :
    (∃ found, toLocal Sample.root (.obj [("Region:a:b", .obj [("Topology", .str "Solid")]),
        ("MaxIterations", .int 5), ("Region", .null), ("Regions:a", .null),
        ("Region:", .int 1)]) = .obj found ∧
      Keyed.get? "region" found =
        some (.obj [("a:b", .obj [("topology", .str "Solid")]), ("", .int 1)])) ∧
    (∃ found, toLocal Sample.root (.obj [("Region", .null), ("Regions:a", .null)]) = .obj found ∧
      Keyed.get? "region" found = none) ∧
    toRemote Sample.root
        (.obj [("region", .obj [("b", .int 1), ("a", .obj [("topology", .null)])])]) =
      .obj [("Region:b", .int 1), ("Region:a", .obj [("Topology", .null)])] := by
  obtain ⟨hlocal, hremote⟩ :=
    collection_projections_agree Sample.compiled .root List.mem_cons_self
  refine ⟨?_, ?_, ?_⟩
  · obtain ⟨found, hfound, -, hget, -⟩ := hlocal _
    exact ⟨found, hfound, hget.trans rfl⟩
  · obtain ⟨found, hfound, -, hget, -⟩ := hlocal _
    exact ⟨found, hfound, hget.trans rfl⟩
  · exact (hremote _).1.trans rfl

end SettingsTree.Projection
