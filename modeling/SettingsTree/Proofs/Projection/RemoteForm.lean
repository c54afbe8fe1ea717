import SettingsTree.Proofs.Projection.Container

/-! # Remote states through the local form and back

Taking a remote state to its local form and back leaves exactly the entries that the schema knows.
A key is known when it names a property or a child of a fixed shape, or when it is the key of a
member of a collection, whatever the member is called.
-/

namespace SettingsTree.Projection

open Descriptor

mutual
/-- What the schema knows of a remote state, in the order of the descriptors. -/
def known : Descriptor → Json → Json
  | .container _ properties children _, .obj state =>
    .obj (properties.flatMap (fun p => state.filter fun e => e.1 = p.remote) ++
      knownChildren children state)
  | .collection label template, .obj state =>
    .obj ((state.filter fun e => (memberOf? label.remote e.1).isSome).map fun e =>
      (e.1, known template e.2))
  | _, value => value
def knownChildren : List Descriptor → Keyed Json → Keyed Json
  | [], _ => []
  | .collection label template :: rest, state =>
    ((state.filter fun e => (memberOf? label.remote e.1).isSome).map fun e =>
      (e.1, known template e.2)) ++ knownChildren rest state
  | child :: rest, state =>
    ((state.filter fun e => e.1 = child.remote).map fun e => (e.1, known child e.2)) ++
      knownChildren rest state
end

def knownEntries (state : Keyed Json) : Descriptor → Keyed Json
  | .collection label template =>
    (state.filter fun e => (memberOf? label.remote e.1).isSome).map fun e =>
      (e.1, known template e.2)
  | child => (state.filter fun e => e.1 = child.remote).map fun e => (e.1, known child e.2)

/-- What becomes of an entry of a remote state that a container knows. -/
inductive Keeps (properties children : List Descriptor) : String × Json → String × Json → Prop
  | property {p value} (mem : p ∈ properties) :
      Keeps properties children (p.remote, value) (p.remote, value)
  | child {c value} (mem : c ∈ children) (fixed : c.kind ≠ .collection) :
      Keeps properties children (c.remote, value) (c.remote, known c value)
  | member {label template value} (mem : .collection label template ∈ children) (name : String) :
      Keeps properties children (memberKey label.remote name, value)
        (memberKey label.remote name, known template value)

variable {state : Keyed Json} {outer : Label} {properties children commands : List Descriptor}
  {c d : Descriptor}

theorem knownChildren_eq (children : List Descriptor) (state : Keyed Json) :
    knownChildren children state = children.flatMap (knownEntries state) := by
  induction children with
  | nil => rw [knownChildren, List.flatMap_nil]
  | cons child rest ih =>
    rw [List.flatMap_cons, ← ih]
    cases child with
    | collection label template => rw [knownChildren, knownEntries]
    | _ => rw [knownChildren, knownEntries] <;> simp

/-! ### The entries that are kept -/

theorem mem_knownEntries (projectable : c.Projectable) (mem : c ∈ children) {e : String × Json}
    (h : e ∈ knownEntries state c) : ∃ old ∈ state, Keeps properties children old e := by
  cases c with
  | collection label template =>
    obtain ⟨⟨key, value⟩, hold, rfl⟩ := List.mem_map.1 h
    obtain ⟨hstate, hkey⟩ := List.mem_filter.1 hold
    obtain ⟨name, hname⟩ := Option.isSome_iff_exists.1 hkey
    have hkey' : key = memberKey label.remote name := (memberOf?_eq_some_iff.1 hname).1
    subst hkey'
    exact ⟨_, hstate, .member mem name⟩
  | _ =>
    rw [knownEntries] at h
    · obtain ⟨⟨key, value⟩, hold, rfl⟩ := List.mem_map.1 h
      obtain ⟨hstate, hkey⟩ := List.mem_filter.1 hold
      obtain rfl := of_decide_eq_true hkey
      exact ⟨_, hstate, .child mem (by simp [kind])⟩
    all_goals simp

theorem mem_known_iff (inside : ∀ c ∈ children, c.Projectable) {e : String × Json} :
    e ∈ properties.flatMap (fun p => state.filter fun e => e.1 = p.remote) ++
        children.flatMap (knownEntries state) ↔
      ∃ old ∈ state, Keeps properties children old e := by
  rw [List.mem_append, List.mem_flatMap, List.mem_flatMap]
  constructor
  · rintro (⟨p, hp, he⟩ | ⟨c, hc, he⟩)
    · obtain ⟨key, value⟩ := e
      obtain ⟨hstate, hkey⟩ := List.mem_filter.1 he
      obtain rfl := of_decide_eq_true hkey
      exact ⟨_, hstate, .property hp⟩
    · exact mem_knownEntries (inside c hc) hc he
  · rintro ⟨old, hstate, hkeeps⟩
    cases hkeeps with
    | property mem =>
      exact Or.inl ⟨_, mem, List.mem_filter.2 ⟨hstate, by simp⟩⟩
    | @child c value mem fixed =>
      refine Or.inr ⟨c, mem, ?_⟩
      have hkept : (c.remote, value) ∈ state.filter fun e => e.1 = c.remote :=
        List.mem_filter.2 ⟨hstate, by simp⟩
      cases c with
      | collection => simp [kind] at fixed
      | _ =>
        rw [knownEntries]
        · exact List.mem_map_of_mem hkept
        all_goals simp
    | @member label template value mem name =>
      have hmember := memberOf?_memberKey (inside _ mem).2 name
      exact Or.inr ⟨_, mem, List.mem_map.2
        ⟨_, List.mem_filter.2 ⟨hstate, Option.isSome_iff_exists.2 ⟨name, hmember⟩⟩, rfl⟩⟩

/-! ### From the remote form and back -/

theorem membersUnder_distinct (unique : (Json.obj state).Unique)
    (locals : ((properties ++ children).map Descriptor.localName).Nodup) (label : Label)
    (template : Descriptor) (mem : .collection label template ∈ children) :
    Keyed.Distinct (membersUnder label.localName (localState properties children state)) := by
  rw [membersUnder_localState locals mem]
  exact distinct_gather unique.distinct _ _

theorem scatter_localEntries {label : Label} {template : Descriptor}
    (projectable : (collection label template).Projectable) (unique : (Json.obj state).Unique)
    (member : ∀ v : Json, v.Unique → toRemote template (toLocal template v) = known template v) :
    (gather template.remote (toLocal template) state).map
        (fun m => (memberKey template.remote m.1, toRemote template m.2)) =
      knownEntries state (.collection label template) := by
  have hremote : template.remote = label.remote := congrArg Label.remote projectable.1
  rw [scatter_gathered unique.distinct, knownEntries, hremote]
  apply List.map_congr_left
  intro e he
  rw [member e.2 (unique.member (List.mem_filter.1 he).1)]

/-- What a child accounts for comes back from the local state without what is not known. -/
theorem remoteEntries_localState
    (locals : ((properties ++ children).map Descriptor.localName).Nodup)
    (inside : ∀ c ∈ children, c.Projectable) (unique : (Json.obj state).Unique) (mem : c ∈ children)
    (fixed : ∀ v : Json, v.Unique → toRemote c (toLocal c v) = known c v)
    (member : ∀ label template, c = .collection label template →
      ∀ v : Json, v.Unique → toRemote template (toLocal template v) = known template v) :
    remoteEntries (localState properties children state) c = knownEntries state c := by
  cases c with
  | collection label template =>
    rw [remoteEntries, membersUnder_localState locals mem,
      scatter_localEntries (inside _ mem) unique (member label template rfl)]
  | _ =>
    rw [remoteEntries, get?_localState_child locals mem, localEntries, knownEntries,
      Keyed.filter_name_eq _ unique.distinct]
    cases hv : Keyed.get? _ state with
    | none => simp
    | some v => simp [fixed v (unique_of_get? unique hv)]
    all_goals simp

theorem toRemote_toLocal (d : Descriptor) (h : ∀ x, d.Reaches x → x.Projectable) (r : Json)
    (unique : r.Unique) : toRemote d (toLocal d r) = known d r := by
  induction d using states_induct generalizing r with
  | container label properties children commands ih ihm =>
    cases r with
    | obj state =>
      have hroot := h _ .root
      have inside := fun c hc => h c (.child hc .root)
      have hmembers := membersUnder_distinct unique hroot.2.2
      rw [toLocal_container, Keyed.ofList_of_distinct (distinct_localState hroot.2.2),
        toRemote_container, Keyed.ofList_of_distinct (distinct_remoteState hroot inside hmembers),
        known, knownChildren_eq, remoteState, flatMap_blocks]
      congr 2
      · apply List.flatMap_congr
        intro p hp
        rw [propertyEntries, get?_localState_property hroot.2.2 hp,
          Keyed.filter_name_eq _ unique.distinct]
      · apply List.flatMap_congr
        intro c hc
        refine remoteEntries_localState hroot.2.2 inside unique hc ?_ ?_
        · exact ih c hc fun x hx => h x (.of_child hc hx)
        · rintro inner template rfl
          exact ihm inner template hc fun x hx => h x (.of_child hc (.of_template hx))
    | _ => simp [toRemote, toLocal, known]
  | collection label template ih =>
    cases r with
    | obj state =>
      have hroot := h _ .root
      have hmember := fun v => ih (fun x hx => h x (.of_template hx)) v
      have hlocal : Keyed.Distinct (localEntries state (.collection label template)) :=
        distinct_localEntries _ _
      have hgather :
          membersUnder label.localName (localEntries state (.collection label template)) =
            gather template.remote (toLocal template) state := membersUnder_nonemptyEntry _ _
      rw [toLocal_collection, Keyed.ofList_of_distinct hlocal, toRemote_collection, remoteEntries,
        hgather, Keyed.ofList_of_distinct]
      · rw [scatter_localEntries hroot unique hmember, known, knownEntries]
      · exact distinct_memberKeys (distinct_gather unique.distinct _ _) _ _
    | _ => simp [toRemote, toLocal, known]
  | leaf => simp [toRemote, toLocal, known]
  | command => simp [toRemote, toLocal, known]

/-- The entries of a container's remote state that come back are those that are known, each once. -/
theorem kept_of_toRemote_toLocal (label : Label)
    (h : ∀ x, (container label properties children commands).Reaches x → x.Projectable)
    (unique : (Json.obj state).Unique) :
    ∃ kept, toRemote (.container label properties children commands)
        (toLocal (.container label properties children commands) (.obj state)) = .obj kept ∧
      Keyed.Distinct kept ∧ ∀ e, e ∈ kept ↔ ∃ old ∈ state, Keeps properties children old e := by
  have hknown := toRemote_toLocal _ h _ unique
  have hroot := h _ .root
  have inside := fun c hc => h c (.child hc .root)
  have hdistinct := distinct_remoteState hroot inside (membersUnder_distinct unique hroot.2.2)
  rw [toLocal_container, Keyed.ofList_of_distinct (distinct_localState hroot.2.2),
    toRemote_container, Keyed.ofList_of_distinct hdistinct, known, knownChildren_eq] at hknown
  rw [toLocal_container, Keyed.ofList_of_distinct (distinct_localState hroot.2.2),
    toRemote_container, Keyed.ofList_of_distinct hdistinct]
  refine ⟨_, rfl, hdistinct, fun e => ?_⟩
  rw [Json.obj.inj hknown, mem_known_iff inside]

/-- When the remote names of a compiled schema are separate, a remote state that goes to the local
form and back is left with exactly what the schema knows, at every position of the schema. In the
state of a container no known entry is lost, none is merged with another one, and none is new. -/
theorem remote_local_remote {raw : Json} {rootType : String} {options : Options} {schema : Compiled}
    (compiled : compile raw rootType options = .ok schema)
    (separate : ∀ x, schema.root.Reaches x → x.Separate) {r : Json} (unique : r.Unique) :
    (∀ d, schema.root.Reaches d → toRemote d (toLocal d r) = known d r) ∧
      ∀ label properties children commands state, r = .obj state →
        schema.root.Reaches (.container label properties children commands) →
        ∃ kept, toRemote (.container label properties children commands)
            (toLocal (.container label properties children commands) r) = .obj kept ∧
          Keyed.Distinct kept ∧
          ∀ e, e ∈ kept ↔ ∃ old ∈ state, Keeps properties children old e := by
  constructor
  · intro d hd
    exact toRemote_toLocal d (projectable_of_compile compiled separate hd) r unique
  · rintro label properties children commands state rfl hd
    exact kept_of_toRemote_toLocal label (projectable_of_compile compiled separate hd) unique

/-- A bare collection name, a member whose name has a colon, one without a name, and an unknown
key. -/
theorem remote_local_remote_sample :
    toRemote Sample.root (toLocal Sample.root (.obj [("Region:", .int 1), ("Region", .null),
        ("Solver", .obj [("x", .null)]), ("Solver:a", .null),
        ("Region:a:b", .obj [("x", .null), ("Topology", .str "Solid")]),
        ("MaxIterations", .int 5)])) =
      .obj [("MaxIterations", .int 5), ("Region:", .int 1),
        ("Region:a:b", .obj [("Topology", .str "Solid")]), ("Solver", .obj [])] := by
  have hunique : (Json.obj [("Region:", .int 1), ("Region", .null),
      ("Solver", .obj [("x", .null)]), ("Solver:a", .null),
      ("Region:a:b", .obj [("x", .null), ("Topology", .str "Solid")]),
      ("MaxIterations", .int 5)]).Unique := by
    simp [Json.Unique, Json.UniqueMembers, Keyed.Distinct, Json.int]
  have h := (remote_local_remote Sample.compiled Sample.separate hunique).1 Sample.root .root
  rw [h]
  rfl

end SettingsTree.Projection
