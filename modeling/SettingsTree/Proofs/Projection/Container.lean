import SettingsTree.Proofs.Projection.Entries

/-! # Projected states of containers

When the members of a container have different names, no entry of a projected state is written over
another one, and what a member accounts for is found in the whole state as if it stood there alone.
-/

namespace SettingsTree.Projection

open Descriptor

variable {state : Keyed Json} {label outer : Label} {properties children commands : List Descriptor}
  {c p : Descriptor} {e : String × Json}

theorem mem_localEntries (h : e ∈ localEntries state c) : e.1 = c.localName := by
  cases c with
  | collection label template => exact mem_nonemptyEntry h
  | _ =>
    obtain ⟨v, -, rfl⟩ := List.mem_map.1 h
    rfl

theorem distinct_localEntries (state : Keyed Json) (c : Descriptor) :
    Keyed.Distinct (localEntries state c) := by
  cases c with
  | collection label template => exact distinct_nonemptyEntry _ _
  | _ => exact Keyed.distinct_toList _ _ _

theorem keyType_remoteEntries (projectable : c.Projectable) (plain : Plain c.remote)
    (h : e ∈ remoteEntries state c) : keyType e.1 = c.remote := by
  cases c with
  | collection label template =>
    obtain ⟨hlabel, -⟩ := projectable
    obtain ⟨m, -, rfl⟩ := List.mem_map.1 h
    rw [show template.remote = label.remote from congrArg Label.remote hlabel]
    exact keyType_memberKey plain m.1
  | _ =>
    obtain ⟨v, -, rfl⟩ := List.mem_map.1 h
    exact keyType_of_plain plain

theorem distinct_memberKeys {members : Keyed Json} (distinct : Keyed.Distinct members)
    (type : String) (project : Json → Json) :
    Keyed.Distinct (members.map fun m => (memberKey type m.1, project m.2)) := by
  have hnames := List.Nodup.map (memberKey_injective type) distinct
  simpa [Keyed.Distinct, Keyed.names, Function.comp_def] using hnames

theorem distinct_remoteEntries (h : ∀ label template, c = .collection label template →
    Keyed.Distinct (membersUnder label.localName state)) :
    Keyed.Distinct (remoteEntries state c) := by
  cases c with
  | collection label template => exact distinct_memberKeys (h label template rfl) _ _
  | _ => exact Keyed.distinct_toList _ _ _

/-! ### Local states -/

section Local

variable (locals : ((properties ++ children).map Descriptor.localName).Nodup)

theorem localBlocks_name :
    ∀ block ∈ blocks Descriptor.localName remote (localEntries state) state properties children,
      ∀ e ∈ block.2, id e.1 = block.1 :=
  forall_blocks (fun name entries => ∀ e ∈ entries, id e.1 = name)
    (fun _ _ _ he => mem_propertyEntries he) fun _ _ _ he => mem_localEntries he

include locals

theorem distinct_localState : Keyed.Distinct (localState properties children state) := by
  apply Keyed.distinct_flatMap localBlocks_name (distinct_blocks _ _ _ locals)
  exact forall_blocks (fun _ entries => Keyed.Distinct entries)
    (fun p _ => distinct_propertyEntries _ _ _ p) fun c _ => distinct_localEntries _ c

theorem get?_localState_property (mem : p ∈ properties) :
    Keyed.get? p.localName (localState properties children state) = Keyed.get? p.remote state := by
  have hdistinct := distinct_blocks remote (localEntries state) state locals
  rw [localState, Keyed.get?_flatMap localBlocks_name hdistinct rfl (property_mem_blocks mem),
    get?_propertyEntries]

theorem get?_localState_child (mem : c ∈ children) :
    Keyed.get? c.localName (localState properties children state) =
      Keyed.get? c.localName (localEntries state c) := by
  have hdistinct := distinct_blocks remote (localEntries state) state locals
  rw [localState, Keyed.get?_flatMap localBlocks_name hdistinct rfl (child_mem_blocks mem)]

theorem get?_localState_collection {template : Descriptor}
    (mem : .collection label template ∈ children) :
    Keyed.get? label.localName (localState properties children state) =
      Keyed.get? label.localName (localEntries state (.collection label template)) :=
  get?_localState_child locals mem

theorem membersUnder_localState {template : Descriptor}
    (mem : .collection label template ∈ children) :
    membersUnder label.localName (localState properties children state) =
      gather template.remote (toLocal template) state := by
  rw [membersUnder, get?_localState_collection locals mem]
  exact membersUnder_nonemptyEntry _ _

end Local

/-! ### Remote states -/

section Remote

variable (projectable : (container outer properties children commands).Projectable)
  (inside : ∀ c ∈ children, c.Projectable)

include projectable inside

theorem remoteBlocks_type :
    ∀ block ∈ blocks remote Descriptor.localName (remoteEntries state) state properties children,
      ∀ e ∈ block.2, keyType e.1 = block.1 := by
  obtain ⟨-, hplain, -⟩ := projectable
  refine forall_blocks (fun name entries => ∀ e ∈ entries, keyType e.1 = name)
    (fun p hp e he => ?_) fun c hc e he => ?_
  · rw [mem_propertyEntries he]
    exact keyType_of_plain (hplain p (List.mem_append_left _ hp))
  · exact keyType_remoteEntries (inside c hc) (hplain c (List.mem_append_right _ hc)) he

theorem distinct_remoteState (h : ∀ label template, .collection label template ∈ children →
    Keyed.Distinct (membersUnder label.localName state)) :
    Keyed.Distinct (remoteState properties children state) := by
  apply Keyed.distinct_flatMap (remoteBlocks_type projectable inside)
    (distinct_blocks _ _ _ projectable.1)
  refine forall_blocks (fun _ entries => Keyed.Distinct entries)
    (fun p _ => distinct_propertyEntries _ _ _ p) fun c hc => distinct_remoteEntries ?_
  rintro label template rfl
  exact h label template hc

theorem get?_remoteState_property (mem : p ∈ properties) :
    Keyed.get? p.remote (remoteState properties children state) =
      Keyed.get? p.localName state := by
  have hself := keyType_of_plain (projectable.2.1 p (List.mem_append_left _ mem))
  have hdistinct := distinct_blocks Descriptor.localName (remoteEntries state) state projectable.1
  rw [remoteState, Keyed.get?_flatMap (remoteBlocks_type projectable inside) hdistinct hself
    (property_mem_blocks mem), get?_propertyEntries]

theorem get?_remoteState_child (mem : c ∈ children) :
    Keyed.get? c.remote (remoteState properties children state) =
      Keyed.get? c.remote (remoteEntries state c) := by
  have hself := keyType_of_plain (projectable.2.1 c (List.mem_append_right _ mem))
  have hdistinct := distinct_blocks Descriptor.localName (remoteEntries state) state projectable.1
  rw [remoteState, Keyed.get?_flatMap (remoteBlocks_type projectable inside) hdistinct hself
    (child_mem_blocks mem)]

/-- A collection gathers its own members and no others. -/
theorem gather_remoteState {template : Descriptor} (mem : .collection label template ∈ children)
    (project : Json → Json) :
    gather template.remote project (remoteState properties children state) =
      gather template.remote project (remoteEntries state (.collection label template)) := by
  have hremote : template.remote = label.remote := congrArg Label.remote (inside _ mem).1
  have hdistinct := distinct_blocks Descriptor.localName (remoteEntries state) state projectable.1
  have hblock := Keyed.filter_flatMap_eq (remoteBlocks_type projectable inside) hdistinct
    (child_mem_blocks mem)
  rw [← gather_filter, remoteState, hremote]
  exact congrArg (gather label.remote project) hblock

end Remote

end SettingsTree.Projection
