import SettingsTree.Proofs.Name.Siblings
import SettingsTree.Proofs.Path.MemberKey
import SettingsTree.Proofs.Schema.Tree

/-! # Positions whose members can be told apart

Projecting a state loses nothing when the members of every container have different names on either
side. Local names differ because they were compiled. Remote names are what the remote gives them, so
that these differ, and that none has a colon, has to be asked for.
-/

namespace SettingsTree

open Entry Name

namespace Descriptor

/-- Descriptors by the states that are projected inside them: those of the children of a container,
and those of the members of its collections. -/
@[elab_as_elim]
theorem states_induct {motive : Descriptor → Prop}
    (container : ∀ label properties children commands, (∀ c ∈ children, motive c) →
      (∀ inner template, .collection inner template ∈ children → motive template) →
      motive (.container label properties children commands))
    (collection : ∀ label template, motive template → motive (.collection label template))
    (leaf : ∀ label primitive, motive (.leaf label primitive))
    (command : ∀ label arguments essential pathArgument query,
      motive (.command label arguments essential pathArgument query)) (d : Descriptor) :
    motive d := by
  -- the template of a collection is two levels below the container that has the collection
  suffices h : motive d ∧ ∀ template, d.template? = some template → motive template from h.1
  induction d with
  | container label properties children commands _ ih _ =>
    refine ⟨container _ _ _ _ (fun c hc => (ih c hc).1) fun inner template hc => ?_, by
      simp [template?]⟩
    exact (ih _ hc).2 template rfl
  | collection label template ih =>
    refine ⟨collection _ _ ih.1, fun found hfound => ?_⟩
    cases hfound
    exact ih.1
  | leaf label primitive => exact ⟨leaf _ _, by simp [template?]⟩
  | command => exact ⟨command _ _ _ _ _, by simp [template?]⟩

/-- The remote names of a container's properties and children are pairwise different and have no
colon. -/
def Separate : Descriptor → Prop
  | .container _ properties children _ =>
    ((properties ++ children).map remote).Nodup ∧ ∀ m ∈ properties ++ children, Plain m.remote
  | _ => True

/-- The members of a container have different names on both sides, and the members of a collection
are found by the name of the collection. -/
def Projectable : Descriptor → Prop
  | .container _ properties children _ =>
    ((properties ++ children).map remote).Nodup ∧ (∀ m ∈ properties ++ children, Plain m.remote) ∧
      ((properties ++ children).map localName).Nodup
  | .collection label template => template.label = label ∧ Plain label.remote
  | _ => True

section

variable {label : Label} {properties children commands : List Descriptor}
  (projectable : (container label properties children commands).Projectable)

include projectable

/-- Properties and children have different remote names each, and share none. -/
theorem Projectable.remotes :
    (properties.map remote).Nodup ∧ (children.map remote).Nodup ∧
      ∀ p ∈ properties, ∀ c ∈ children, p.remote ≠ c.remote := by
  have hnodup := projectable.1
  rw [List.map_append, List.nodup_append] at hnodup
  obtain ⟨hproperties, hchildren, hne⟩ := hnodup
  exact ⟨hproperties, hchildren, fun p hp c hc =>
    hne _ (List.mem_map_of_mem hp) _ (List.mem_map_of_mem hc)⟩

theorem Projectable.eq_of_remote {c d : Descriptor} (hc : c ∈ children) (hd : d ∈ children)
    (hremote : c.remote = d.remote) : c = d :=
  List.inj_on_of_nodup_map projectable.remotes.2.1 hc hd hremote

end

end Descriptor

section

variable {options : Options} {root d : Descriptor} {item : Item}

theorem Described.locals_nodup {label : Label} {properties children commands : List Descriptor}
    (h : Described options (.container label properties children commands)) :
    ((properties ++ children).map Descriptor.localName).Nodup := by
  obtain ⟨_, _, _, _, -, -, -, -, -, -, hlocals⟩ := h.members
  have hnodup := distinguishAll_nodup
  rw [List.map_append] at hlocals
  exact List.Nodup.sublist (List.sublist_append_left _ _) (hlocals ▸ hnodup _)

theorem Described.template_label {label : Label} {template : Descriptor}
    (h : Described options (.collection label template)) : template.label = label := by
  obtain ⟨_, hcollection⟩ := h.collection
  obtain ⟨_, _, _, rfl, -⟩ := hcollection.template
  rfl

theorem described_of_compile {raw : Json} {rootType : String} {schema : Compiled}
    (compiled : compile raw rootType options = .ok schema) (hd : schema.root.Reaches d) :
    Described options d := by
  obtain ⟨_, _, _, _, -, -, -, -, h, -, rfl⟩ := compile_eq_ok_iff.1 compiled
  exact described_of_reaches h hd

/-- A collection is a child of some container, unless it is the root. -/
theorem exists_parent {label : Label} {template : Descriptor} (h : Describes options root item)
    (hroot : root.kind = .container) (hd : root.Reaches (.collection label template)) :
    ∃ outer properties children commands,
      root.Reaches (.container outer properties children commands) ∧
        .collection label template ∈ children := by
  cases hd with
  | root => exact absurd hroot (by simp [Descriptor.kind])
  | property mem hd =>
    obtain ⟨_, _, _, _, -, -, -, hproperties, -⟩ := (described_of_reaches h hd).members
    obtain ⟨_, -, hleaf⟩ := exists_of_mem_left hproperties mem
    exact absurd hleaf.kind (by simp [Descriptor.kind])
  | child mem hd => exact ⟨_, _, _, _, hd, mem⟩
  | command mem hd =>
    obtain ⟨_, _, _, _, -, -, -, -, -, hcommands, -⟩ := (described_of_reaches h hd).members
    obtain ⟨_, -, hcommand⟩ := exists_of_mem_left hcommands mem
    exact absurd hcommand.kind (by simp [Descriptor.kind])
  | template hd =>
    obtain ⟨_, hcollection⟩ := (described_of_reaches h hd).collection
    obtain ⟨_, _, _, htemplate, -⟩ := hcollection.template
    cases htemplate
  | argument mem hd =>
    obtain ⟨_, _, _, _, _, _, -, -, -, -, harguments, -, heq⟩ :=
      (described_of_reaches h hd).arguments
    cases heq
    obtain ⟨_, -, hleaf⟩ := exists_of_mem_left harguments mem
    exact absurd hleaf.kind (by simp [Descriptor.kind])

theorem projectable_of_reaches (h : Describes options root item) (hroot : root.kind = .container)
    (separate : ∀ x, root.Reaches x → x.Separate) (hd : root.Reaches d) : d.Projectable := by
  have hdescribed := described_of_reaches h hd
  cases d with
  | container label properties children commands =>
    obtain ⟨hremote, hplain⟩ := separate _ hd
    exact ⟨hremote, hplain, hdescribed.locals_nodup⟩
  | collection label template =>
    obtain ⟨_, properties, children, _, hparent, hmem⟩ := exists_parent h hroot hd
    exact ⟨hdescribed.template_label, (separate _ hparent).2 _ (List.mem_append_right _ hmem)⟩
  | leaf => trivial
  | command => trivial

/-- All positions of a compiled schema can be projected when its remote names are separate. -/
theorem projectable_of_compile {raw : Json} {rootType : String} {schema : Compiled}
    (compiled : compile raw rootType options = .ok schema)
    (separate : ∀ x, schema.root.Reaches x → x.Separate) (hd : schema.root.Reaches d) :
    ∀ x, d.Reaches x → x.Projectable := by
  obtain ⟨_, entry, _, root, -, -, -, hfixed, h, -, rfl⟩ := compile_eq_ok_iff.1 compiled
  exact fun x hx => projectable_of_reaches h (h.kind_of_fixed hfixed) separate (hd.trans hx)

end

/-! ### A schema with a collection and two names that collide -/

namespace Sample

def entry : Entry := [
  ("__parameters", .obj [
    ("MaxIterations", .obj [("type", .str "Integer"), ("ordinal", .int 1)]),
    ("maxIterations", .obj [("type", .str "Real"), ("ordinal", .int 0)])]),
  ("__children", .obj [
    ("Solver", .obj []),
    ("Region", .obj [("isNamed", .bool true), ("ordinal", .int 0),
      ("__parameters", .obj [("Topology", .obj [("type", .str "String")])])])])]

def raw : Json := .obj [("Root", .obj entry)]

def region : Label := ⟨"Region", "region", 0⟩

def template : Descriptor :=
  .container region [.leaf ⟨"Topology", "topology", lastOrdinal⟩ .string] [] []

def root : Descriptor :=
  .container ⟨"Root", "root", lastOrdinal⟩
    [.leaf ⟨"maxIterations", "max_iterations", 0⟩ .real,
      .leaf ⟨"MaxIterations", "max_iterations_1", 1⟩ .integer]
    [.collection region
        (.container region [.leaf ⟨"Topology", "topology", lastOrdinal⟩ .string] [] []),
      .container ⟨"Solver", "solver", lastOrdinal⟩ [] [] []] []

def schema : Compiled := ⟨raw.digest, Options.digest {}, "Root", root⟩

theorem compiled : compile raw "Root" {} = .ok schema :=
  compile_eq_ok_of_container rfl (Or.inl ⟨Or.inl rfl, rfl⟩) (by decide +kernel)

theorem separate (x : Descriptor) (h : schema.root.Reaches x) : x.Separate := by
  revert x
  simp [Descriptor.forall_reaches_iff (d := .container _ _ _ _),
    Descriptor.forall_reaches_iff (d := .collection _ _),
    Descriptor.forall_reaches_iff (d := .leaf _ _), Descriptor.parts, Descriptor.Separate,
    Descriptor.remote, Descriptor.label, Plain, or_imp, forall_and, schema, root, region]

end Sample

end SettingsTree
