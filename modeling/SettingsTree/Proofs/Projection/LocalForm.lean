import SettingsTree.Proofs.Projection.Container

/-! # Local states through the remote form and back

Taking a local state to its remote form and back leaves the part of it that the schema knows: its
normal form. A state that is in normal form is not changed at all.
-/

namespace SettingsTree.Projection

open Descriptor

mutual
/-- The normal form of a local state: what is declared, in the order of the descriptors, with
collections that are no objects or have no members left out. -/
def normal : Descriptor → Json → Json
  | .container _ properties children _, .obj state =>
    .obj (properties.flatMap (propertyEntries Descriptor.localName Descriptor.localName state) ++
      normalChildren children state)
  | .collection label template, .obj state =>
    .obj (nonemptyEntry label.localName
      ((membersUnder label.localName state).map fun m => (m.1, normal template m.2)))
  | _, value => value
def normalChildren : List Descriptor → Keyed Json → Keyed Json
  | [], _ => []
  | .collection label template :: rest, state =>
    nonemptyEntry label.localName
      ((membersUnder label.localName state).map fun m => (m.1, normal template m.2)) ++
      normalChildren rest state
  | child :: rest, state =>
    ((Keyed.get? child.localName state).toList.map fun v => (child.localName, normal child v)) ++
      normalChildren rest state
end

def normalEntries (state : Keyed Json) : Descriptor → Keyed Json
  | .collection label template =>
    nonemptyEntry label.localName
      ((membersUnder label.localName state).map fun m => (m.1, normal template m.2))
  | child =>
    (Keyed.get? child.localName state).toList.map fun v => (child.localName, normal child v)

mutual
/-- A local state that has declared names only, in the order of the descriptors, and collections
that are objects with members. -/
def Canonical : Descriptor → Json → Prop
  | .container _ properties children _, .obj state =>
    (Keyed.names state).Sublist ((properties ++ children).map Descriptor.localName) ∧
      CanonicalChildren children state
  | .collection label template, .obj state =>
    (Keyed.names state).Sublist [label.localName] ∧
      ∀ value, Keyed.get? label.localName state = some value →
        ∃ members, value = .obj members ∧ members ≠ [] ∧ ∀ m ∈ members, Canonical template m.2
  | _, _ => True
def CanonicalChildren : List Descriptor → Keyed Json → Prop
  | [], _ => True
  | .collection label template :: rest, state =>
    (∀ value, Keyed.get? label.localName state = some value →
      ∃ members, value = .obj members ∧ members ≠ [] ∧ ∀ m ∈ members, Canonical template m.2) ∧
      CanonicalChildren rest state
  | child :: rest, state =>
    (∀ value, Keyed.get? child.localName state = some value → Canonical child value) ∧
      CanonicalChildren rest state
end

def CanonicalChild (state : Keyed Json) : Descriptor → Prop
  | .collection label template =>
    ∀ value, Keyed.get? label.localName state = some value →
      ∃ members, value = .obj members ∧ members ≠ [] ∧ ∀ m ∈ members, Canonical template m.2
  | child => ∀ value, Keyed.get? child.localName state = some value → Canonical child value

variable {state : Keyed Json} {outer : Label} {properties children commands : List Descriptor}
  {c d : Descriptor}

theorem normalChildren_eq (children : List Descriptor) (state : Keyed Json) :
    normalChildren children state = children.flatMap (normalEntries state) := by
  induction children with
  | nil => rw [normalChildren, List.flatMap_nil]
  | cons child rest ih =>
    rw [List.flatMap_cons, ← ih]
    cases child with
    | collection label template => rw [normalChildren, normalEntries]
    | _ => rw [normalChildren, normalEntries] <;> simp

theorem canonicalChildren_iff {children : List Descriptor} {state : Keyed Json} :
    CanonicalChildren children state ↔ ∀ c ∈ children, CanonicalChild state c := by
  induction children with
  | nil => simp [CanonicalChildren]
  | cons child rest ih =>
    rw [List.forall_mem_cons, ← ih]
    cases child <;> simp [CanonicalChildren, CanonicalChild]

/-! ### States in normal form -/

theorem normalEntries_collection_of_canonical {label : Label} {template : Descriptor}
    (h : CanonicalChild state (.collection label template))
    (member : ∀ v, Canonical template v → normal template v = v) :
    normalEntries state (.collection label template) =
      (Keyed.get? label.localName state).toList.map (label.localName, ·) := by
  rw [normalEntries, membersUnder]
  cases hv : Keyed.get? label.localName state with
  | none => simp [nonemptyEntry]
  | some v =>
    obtain ⟨members, rfl, hne, hmembers⟩ := h v hv
    have hmap : members.map (fun m => (m.1, normal template m.2)) = members := by
      refine (List.map_congr_left fun m hm => ?_).trans (List.map_id members)
      rw [member m.2 (hmembers m hm)]
      rfl
    simp [Json.members?, hmap, nonemptyEntry, hne]

theorem normalEntries_of_canonical (h : CanonicalChild state c)
    (fixed : ∀ v, Canonical c v → normal c v = v)
    (member : ∀ label template, c = .collection label template →
      ∀ v, Canonical template v → normal template v = v) :
    normalEntries state c = (Keyed.get? c.localName state).toList.map (c.localName, ·) := by
  cases c with
  | collection label template =>
    exact normalEntries_collection_of_canonical h (member label template rfl)
  | _ =>
    rw [normalEntries]
    · cases hv : Keyed.get? _ state with
      | none => rfl
      | some v => simp [fixed v (h v hv)]
    all_goals simp

theorem normal_of_canonical (d : Descriptor) (h : ∀ x, d.Reaches x → x.Projectable) (p : Json)
    (canonical : Canonical d p) : normal d p = p := by
  induction d using states_induct generalizing p with
  | container label properties children commands ih ihm =>
    cases p with
    | obj state =>
      obtain ⟨hnames, hchildren⟩ := canonical
      rw [canonicalChildren_iff] at hchildren
      have hkept : children.flatMap (normalEntries state) = children.flatMap fun c =>
          (Keyed.get? c.localName state).toList.map (c.localName, ·) := by
        refine List.flatMap_congr fun c hc => normalEntries_of_canonical (hchildren c hc) ?_ ?_
        · exact ih c hc fun x hx => h x (.of_child hc hx)
        · rintro inner template rfl
          exact ihm inner template hc fun x hx => h x (.of_child hc (.of_template hx))
      rw [normal, normalChildren_eq, hkept]
      have hall := Keyed.flatMap_get?_eq hnames (h _ .root).2.2
      rw [List.flatMap_append] at hall
      exact congrArg Json.obj hall
    | _ => simp [normal]
  | collection label template ih =>
    cases p with
    | obj state =>
      obtain ⟨hnames, hmembers⟩ := canonical
      have hmember := fun v => ih (fun x hx => h x (.of_template hx)) v
      have hkept := normalEntries_collection_of_canonical hmembers hmember
      have hall := Keyed.flatMap_get?_eq (f := Label.localName) (l := [label]) hnames
        (List.nodup_singleton _)
      rw [List.flatMap_singleton, ← hkept] at hall
      exact congrArg Json.obj hall
    | _ => simp [normal]
  | leaf => simp [normal]
  | command => simp [normal]

/-! ### From the local form and back -/

/-- The members of a collection come back from its remote entries in their normal form. -/
theorem gather_remoteEntries {label : Label} {template : Descriptor}
    (projectable : (collection label template).Projectable) (unique : (Json.obj state).Unique)
    (member : ∀ v : Json, v.Unique → toLocal template (toRemote template v) = normal template v) :
    gather template.remote (toLocal template) (remoteEntries state (.collection label template)) =
      (membersUnder label.localName state).map fun m => (m.1, normal template m.2) := by
  obtain ⟨hlabel, hplain⟩ := projectable
  have hmembers := unique_membersUnder label.localName unique
  rw [remoteEntries, gather_scattered (by rwa [Descriptor.remote, hlabel]) hmembers.distinct]
  apply List.map_congr_left
  intro m hm
  rw [member m.2 (hmembers.member hm)]

/-- What a child accounts for comes back from the remote state in its normal form. -/
theorem localEntries_remoteState
    (projectable : (container outer properties children commands).Projectable)
    (inside : ∀ c ∈ children, c.Projectable) (unique : (Json.obj state).Unique) (mem : c ∈ children)
    (fixed : ∀ v : Json, v.Unique → toLocal c (toRemote c v) = normal c v)
    (member : ∀ label template, c = .collection label template →
      ∀ v : Json, v.Unique → toLocal template (toRemote template v) = normal template v) :
    localEntries (remoteState properties children state) c = normalEntries state c := by
  cases c with
  | collection label template =>
    have hmember := member label template rfl
    rw [localEntries, gather_remoteState projectable inside mem,
      gather_remoteEntries (inside _ mem) unique hmember, normalEntries]
  | _ =>
    rw [localEntries, get?_remoteState_child projectable inside mem, remoteEntries, normalEntries]
    cases hv : Keyed.get? _ state with
    | none => simp
    | some v => simp [fixed v (unique_of_get? unique hv)]
    all_goals simp

theorem toLocal_toRemote (d : Descriptor) (h : ∀ x, d.Reaches x → x.Projectable) (p : Json)
    (unique : p.Unique) : toLocal d (toRemote d p) = normal d p := by
  induction d using states_induct generalizing p with
  | container label properties children commands ih ihm =>
    cases p with
    | obj state =>
      have hroot := h _ .root
      have inside := fun c hc => h c (.child hc .root)
      have hmembers := fun (label : Label) (template : Descriptor)
        (_ : .collection label template ∈ children) =>
        (unique_membersUnder label.localName unique).distinct
      rw [toRemote_container, Keyed.ofList_of_distinct (distinct_remoteState hroot inside hmembers),
        toLocal_container, Keyed.ofList_of_distinct (distinct_localState hroot.2.2), normal,
        normalChildren_eq, localState, flatMap_blocks]
      congr 2
      · apply List.flatMap_congr
        intro p hp
        rw [propertyEntries, get?_remoteState_property hroot inside hp, propertyEntries]
      · apply List.flatMap_congr
        intro c hc
        refine localEntries_remoteState hroot inside unique hc ?_ ?_
        · exact ih c hc fun x hx => h x (.of_child hc hx)
        · rintro inner template rfl
          exact ihm inner template hc fun x hx => h x (.of_child hc (.of_template hx))
    | _ => simp [toRemote, toLocal, normal]
  | collection label template ih =>
    cases p with
    | obj state =>
      have hroot := h _ .root
      have hmember := fun v => ih (fun x hx => h x (.of_template hx)) v
      have hentries : Keyed.Distinct (remoteEntries state (.collection label template)) :=
        distinct_remoteEntries fun _ _ _ => (unique_membersUnder _ unique).distinct
      rw [toRemote_collection, Keyed.ofList_of_distinct hentries, toLocal_collection,
        Keyed.ofList_of_distinct (distinct_localEntries _ _), localEntries,
        gather_remoteEntries hroot unique hmember, normal]
    | _ => simp [toRemote, toLocal, normal]
  | leaf => simp [toRemote, toLocal, normal]
  | command => simp [toRemote, toLocal, normal]

def normalMembers (template : Descriptor) : Json → Json
  | .obj members => .obj (members.map fun m => (m.1, normal template m.2))
  | value => value

theorem collectionToLocal_collectionToRemote {label : Label} {template : Descriptor}
    (h : ∀ x, (collection label template).Reaches x → x.Projectable) {p : Json}
    (unique : p.Unique) :
    collectionToLocal (.collection label template)
      (collectionToRemote (.collection label template) p) = normalMembers template p := by
  cases p with
  | obj members =>
    obtain ⟨hlabel, hplain⟩ := h _ .root
    have hremote : template.remote = label.remote := congrArg Label.remote hlabel
    have hkeys := distinct_memberKeys unique.distinct template.remote (toRemote template)
    have hback : members.map (fun m => (m.1, toLocal template (toRemote template m.2))) =
        members.map fun m => (m.1, normal template m.2) := by
      apply List.map_congr_left
      intro m hm
      rw [toLocal_toRemote template (fun x hx => h x (.of_template hx)) m.2
        (unique.member hm)]
    have hnames : Keyed.Distinct (members.map fun m => (m.1, normal template m.2)) := by
      simpa [Keyed.Distinct, Keyed.names, Function.comp_def] using unique.distinct
    have hscatter : scatter template.remote (toRemote template) members [] =
        members.map fun m => (memberKey template.remote m.1, toRemote template m.2) :=
      Keyed.ofList_of_distinct hkeys
    rw [collectionToRemote, hscatter, collectionToLocal, normalMembers, List.map_map]
    simp only [Function.comp_def, hremote, memberOf?_memberKey hplain, Option.getD_some, hback,
      Keyed.ofList_of_distinct hnames]
  | _ => rfl

/-- When the remote names of a compiled schema are separate, a local state that goes to the remote
form and back is left in its normal form, at every position of the schema: canonical states are
unchanged. Of the members of a collection none is lost, and none moves. -/
theorem local_remote_local {raw : Json} {rootType : String} {options : Options} {schema : Compiled}
    (compiled : compile raw rootType options = .ok schema)
    (separate : ∀ x, schema.root.Reaches x → x.Separate) {p : Json} (unique : p.Unique) :
    (∀ d, schema.root.Reaches d → toLocal d (toRemote d p) = normal d p ∧
      (Canonical d p → toLocal d (toRemote d p) = p)) ∧
      ∀ label template, schema.root.Reaches (.collection label template) →
        collectionToLocal (.collection label template)
          (collectionToRemote (.collection label template) p) = normalMembers template p := by
  constructor
  · intro d hd
    have hprojectable := projectable_of_compile compiled separate hd
    have hnormal := toLocal_toRemote d hprojectable p unique
    refine ⟨hnormal, fun hcanonical => ?_⟩
    rw [hnormal]
    exact normal_of_canonical d hprojectable p hcanonical
  · intro label template hd
    exact collectionToLocal_collectionToRemote (projectable_of_compile compiled separate hd) unique

/-- A member whose name has a colon, an unknown key, and keys in another order. -/
theorem local_remote_local_sample :
    toLocal Sample.root (toRemote Sample.root (.obj [("unknown", .null),
        ("region", .obj [("a:b", .obj [("x", .null), ("topology", .str "Solid")]), ("", .null)]),
        ("max_iterations_1", .int 5), ("solver", .obj [("x", .null)])])) =
      .obj [("max_iterations_1", .int 5),
        ("region", .obj [("a:b", .obj [("topology", .str "Solid")]), ("", .null)]),
        ("solver", .obj [])] := by
  have hunique : (Json.obj [("unknown", .null),
      ("region", .obj [("a:b", .obj [("x", .null), ("topology", .str "Solid")]), ("", .null)]),
      ("max_iterations_1", .int 5), ("solver", .obj [("x", .null)])]).Unique := by
    simp [Json.Unique, Json.UniqueMembers, Keyed.Distinct, Json.int]
  have h := (local_remote_local Sample.compiled Sample.separate hunique).1 Sample.root .root
  rw [h.1]
  rfl

end SettingsTree.Projection
