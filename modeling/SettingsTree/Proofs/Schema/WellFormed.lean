import SettingsTree.Proofs.Schema.Acceptance
import SettingsTree.Proofs.Schema.Lookup
import SettingsTree.Proofs.Schema.Tree
import SettingsTree.Proofs.Schema.Unordered

/-! # What holds at every position of a compiled tree

Members are of the kind of the list they stand in, siblings can be told apart by either name and
stand in the order of their ordinals, a template has the names of its collection, and the essential
arguments of a command are among its arguments. So every local name leads back to the member, or the
argument, that received it.
-/

namespace SettingsTree

open Entry Name

/-! ### Well-formed positions -/

/-- Siblings differ in their remote names and stand in the order of their ordinals. -/
structure Siblings (ds : List Descriptor) : Prop where
  remotes : (ds.map Descriptor.remote).Nodup
  ordered : ds.Pairwise fun d e => d.ordinal ≤ e.ordinal

/-- The members of a container are of the kind of the list they stand in. The three lists share one
set of local names, and each is a list of siblings. -/
structure Members.WellFormed (members : Members) : Prop where
  properties : ∀ p ∈ members.properties, p.kind = .property
  children : ∀ c ∈ members.children, c.kind = .container ∨ c.kind = .collection
  commands : ∀ k ∈ members.commands, k.kind = .command
  locals : (members.all.map fun m => m.descriptor.localName).Nodup
  siblings : Siblings members.properties ∧ Siblings members.children ∧ Siblings members.commands

/-- The arguments of a command are primitive settings with names of their own. The argument that
receives the path, which the options name, is none of them, and the essential ones are. -/
structure Signature.WellFormed (pathArgument : String) (signature : Signature) : Prop where
  arguments : ∀ a ∈ signature.arguments, a.kind = .property
  locals : (signature.arguments.map Descriptor.localName).Nodup
  siblings : Siblings signature.arguments
  unlisted : ∀ a ∈ signature.arguments, a.remote ≠ pathArgument
  supplied : ∀ name, signature.pathArgument = some name → name = pathArgument
  essential : ∀ name ∈ signature.essential, name ∈ signature.arguments.map Descriptor.remote

/-- A position is well-formed in itself. -/
def Descriptor.WellFormed (pathArgument : String) : Descriptor → Prop
  | container _ properties children commands => Members.WellFormed ⟨properties, children, commands⟩
  | collection label template => template.kind = .container ∧ template.label = label
  | leaf .. => True
  | command _ arguments essential supplied query =>
    Signature.WellFormed pathArgument ⟨arguments, essential, supplied, query⟩

/-- Looking up a local name undoes the assignment of local names: it finds the member or argument
that has the name, and its remote name. -/
structure Descriptor.Invertible (d : Descriptor) : Prop where
  member : ∀ members, d.members? = some members → ∀ name found,
    members.lookup? name = some found ↔
      found ∈ members.all ∧ found.descriptor.localName = name
  property : ∀ members, d.members? = some members → ∀ name remote,
    d.remoteProperty? name = some remote ↔
      ∃ p ∈ members.properties, p.localName = name ∧ p.remote = remote
  child : ∀ members, d.members? = some members → ∀ name remote,
    d.remoteChild? name = some remote ↔
      ∃ c ∈ members.children, c.localName = name ∧ c.remote = remote
  argument : ∀ signature, d.signature? = some signature → ∀ name,
    (∀ a, signature.argument? name = some a ↔ a ∈ signature.arguments ∧ a.localName = name) ∧
    ∀ remote, d.remoteArgument? name = some remote ↔
      ∃ a ∈ signature.arguments, a.localName = name ∧ a.remote = remote

theorem Descriptor.invertible_of_locals {d : Descriptor}
    (hmembers : ∀ members, d.members? = some members →
      (members.all.map fun m => m.descriptor.localName).Nodup)
    (hsignature : ∀ signature, d.signature? = some signature →
      (signature.arguments.map localName).Nodup) : d.Invertible where
  member members h name found := Members.lookup?_eq_some_iff (hmembers members h)
  property members h name remote := by
    rw [remoteProperty?, h, Option.bind_some,
      map_byLocal?_eq_some_iff (Members.names_nodup (hmembers members h)).1]
  child members h name remote := by
    rw [remoteChild?, h, Option.bind_some,
      map_byLocal?_eq_some_iff (Members.names_nodup (hmembers members h)).2.1]
  argument signature h name := by
    refine ⟨fun a => byLocal?_eq_some_iff (hsignature signature h), fun remote => ?_⟩
    rw [remoteArgument?, h, Option.bind_some, Signature.argument?,
      map_byLocal?_eq_some_iff (hsignature signature h)]

/-! ### Positions that describe entries -/

section

variable {options : Options} {entry : Entry} {part : Section} {ds : List Descriptor}
  {items : List Item} {R : Descriptor → Item → Prop}

theorem Entry.Reads.siblings (h : Reads part entry items) (unique : (Json.obj entry).Unique)
    (keep : Item → Bool) (hds : List.Forall₂ R ds (items.filter keep))
    (hlabel : ∀ d i, R d i → d.label = ⟨i.name, d.localName, i.ordinal⟩) : Siblings ds := by
  have hordinals : ds.map Descriptor.ordinal = (items.filter keep).map Item.ordinal := by
    have hplaces := congrArg (List.map Prod.snd) (places_eq hlabel hds)
    simpa [Function.comp_def, Item.place] using hplaces.symm
  constructor
  · rw [remotes_eq hlabel hds]
    exact (h.nodup unique).sublist (List.filter_sublist.map Item.name)
  · obtain ⟨_, -, horder⟩ := h
    have hsorted := (horder.sorted.sublist (List.filter_sublist (p := keep)))
    rwa [← List.pairwise_map (f := Descriptor.ordinal) (R := (· ≤ ·)), hordinals,
      List.pairwise_map]

theorem Entry.Reads.siblings_all (h : Reads part entry items) (unique : (Json.obj entry).Unique)
    (hds : List.Forall₂ R ds items)
    (hlabel : ∀ d i, R d i → d.label = ⟨i.name, d.localName, i.ordinal⟩) : Siblings ds :=
  h.siblings unique (fun _ => true) (by simpa using hds) hlabel

theorem members_wellFormed {members : Members} (unique : (Json.obj entry).Unique)
    (h : DescribesMembers options members.properties members.children members.commands
      (DescribesAll options members.children) entry) : members.WellFormed := by
  obtain ⟨parameters, inner, actions, hp, hc, hm, hproperties, hchildren, hcommands, hlocals⟩ := h
  rw [describesAll_iff] at hchildren
  constructor
  · intro p hmem
    obtain ⟨_, -, hleaf⟩ := exists_of_mem_left hproperties hmem
    exact hleaf.kind
  · intro c hmem
    obtain ⟨_, -, hchild⟩ := exists_of_mem_left hchildren hmem
    exact hchild.kind
  · intro k hmem
    obtain ⟨_, -, hcommand⟩ := exists_of_mem_left hcommands hmem
    exact hcommand.kind
  · have hall : (members.all.map fun m => m.descriptor.localName) =
        (members.properties ++ members.children ++ members.commands).map
          Descriptor.localName := by
      simp [Members.all, Function.comp_def, Member.descriptor]
    rw [hall, hlocals]
    exact distinguishAll_nodup _
  · exact ⟨hp.siblings_all unique hproperties fun _ _ => DescribesLeaf.label_eq,
      hc.siblings_all unique hchildren fun _ _ => Describes.label_eq,
      hm.siblings_all unique hcommands fun _ _ => DescribesCommand.label_eq⟩

/-- The essential arguments that are not supplied are the arguments that are described. -/
theorem DescribesCommand.wellFormed {d : Descriptor} {item : Item}
    (h : DescribesCommand options d item) (unique : (Json.obj item.entry).Unique) :
    d.WellFormed options.pathArgument := by
  obtain ⟨localName, arguments, listed, names, query, hreads, -, -, hdeclared, harguments, hlocals,
    rfl⟩ := h
  have hremotes : arguments.map Descriptor.remote =
      (listed.filter (·.name ≠ options.pathArgument)).map Item.name :=
    remotes_eq (fun _ _ => DescribesLeaf.label_eq) harguments
  constructor
  · intro a hmem
    obtain ⟨_, -, hleaf⟩ := exists_of_mem_left harguments hmem
    exact hleaf.kind
  · dsimp only
    rw [hlocals]
    exact distinguishAll_nodup _
  · exact hreads.siblings unique _ harguments fun _ _ => DescribesLeaf.label_eq
  · intro a hmem
    have hname : a.remote ∈ (listed.filter (·.name ≠ options.pathArgument)).map Item.name :=
      hremotes ▸ List.mem_map_of_mem hmem
    obtain ⟨i, hi, hi'⟩ := List.mem_map.1 hname
    rw [← hi']
    exact of_decide_eq_true (List.mem_filter.1 hi).2
  · intro name hname
    dsimp only at hname
    split at hname
    · exact (Option.some.inj hname).symm
    · simp at hname
  · intro name hname
    dsimp only at hname ⊢
    obtain ⟨hmem, hne⟩ := List.mem_filter.1 hname
    obtain ⟨i, hi, rfl⟩ := List.mem_map.1 (hdeclared name hmem)
    rw [hremotes]
    exact List.mem_map_of_mem (List.mem_filter.2 ⟨hi, hne⟩)

theorem Describes.wellFormed {d : Descriptor} {item : Item} (h : Describes options d item)
    (unique : (Json.obj item.entry).Unique) : d.WellFormed options.pathArgument := by
  cases d with
  | container label properties children commands => exact members_wellFormed unique h.2.2.2
  | collection label template =>
    obtain ⟨_, _, _, rfl, -⟩ := h.template
    exact ⟨rfl, h.2.2.2.1⟩
  | _ => exact h.elim

/-! ### Whole trees -/

theorem Entry.Reads.unique_item (h : Reads part entry items) (unique : (Json.obj entry).Unique)
    {i : Item} (hi : i ∈ items) : (Json.obj i.entry).Unique := by
  obtain ⟨members, hget, hmember, -⟩ := h.of_item hi
  exact (unique.member (Keyed.mem_of_get? hget)).member hmember

theorem DescribesLeaf.wellFormed_of_reaches {d x : Descriptor} {item : Item}
    (h : DescribesLeaf d item) (hx : d.Reaches x) : x.WellFormed options.pathArgument := by
  obtain ⟨_, _, _, _, _, rfl⟩ := h
  rcases Descriptor.reaches_iff.1 hx with rfl | ⟨m, hm, -⟩
  · trivial
  · simp [Descriptor.parts] at hm

theorem DescribesCommand.wellFormed_of_reaches {d x : Descriptor} {item : Item}
    (h : DescribesCommand options d item) (unique : (Json.obj item.entry).Unique)
    (hx : d.Reaches x) : x.WellFormed options.pathArgument := by
  rcases Descriptor.reaches_iff.1 hx with rfl | ⟨m, hm, hmx⟩
  · exact h.wellFormed unique
  · obtain ⟨_, _, _, _, _, -, -, -, -, harguments, -, rfl⟩ := h
    obtain ⟨_, -, hleaf⟩ := exists_of_mem_left harguments hm
    exact hleaf.wellFormed_of_reaches hmx

/-- A tree is well-formed when it is so below the members of its root. These are also the members of
the root's template, if the root is a collection. -/
theorem Describes.wellFormed_of_members {d x : Descriptor} {item : Item}
    (h : Describes options d item) (unique : (Json.obj item.entry).Unique)
    (below : ∀ members, d.members? = some members → ∀ m ∈ members.all, ∀ y,
      m.descriptor.Reaches y → y.WellFormed options.pathArgument)
    (hx : d.Reaches x) : x.WellFormed options.pathArgument := by
  have hcontainer : ∀ label properties children commands,
      Descriptor.members? d = some ⟨properties, children, commands⟩ →
      (Descriptor.container label properties children commands).Reaches x →
      x.WellFormed options.pathArgument := by
    intro label properties children commands hmembers hx
    rcases Descriptor.reaches_iff.1 hx with rfl | ⟨m, hm, hx⟩
    · obtain ⟨members, hfound, hdescribes⟩ := h.members
      rw [hmembers, Option.some.injEq] at hfound
      subst hfound
      exact members_wellFormed unique hdescribes
    · simp only [Descriptor.parts, List.mem_append, or_assoc] at hm
      rcases hm with hm | hm | hm
      · exact below _ hmembers (.property m) (by simp [Members.all, hm]) x hx
      · exact below _ hmembers (.child m) (by simp [Members.all, hm]) x hx
      · exact below _ hmembers (.command m) (by simp [Members.all, hm]) x hx
  cases d with
  | container label properties children commands => exact hcontainer label _ _ _ rfl hx
  | collection label template =>
    rcases Descriptor.reaches_iff.1 hx with rfl | ⟨m, hm, hx⟩
    · exact h.wellFormed unique
    · obtain ⟨properties, children, commands, rfl, -⟩ := h.template
      rw [Descriptor.parts, List.mem_singleton] at hm
      subst hm
      exact hcontainer label _ _ _ rfl hx
  | _ => exact h.elim

/-- The induction follows the tree: a container or collection hands on to its children that no name
is repeated in what they describe. -/
theorem wellFormed_below_members {d : Descriptor} {members : Members}
    (hd : d.members? = some members) (unique : (Json.obj entry).Unique)
    (h : DescribesMembers options members.properties members.children members.commands
      (DescribesAll options members.children) entry)
    {m : Member} (hm : m ∈ members.all) {x : Descriptor} (hx : m.descriptor.Reaches x) :
    x.WellFormed options.pathArgument := by
  induction d generalizing members entry m x with
  | container label properties children commands _ ih _ =>
    cases hd
    obtain ⟨parameters, inner, actions, hp, hc, hk, hproperties, hchildren, hcommands, -⟩ := h
    rw [describesAll_iff] at hchildren
    cases m with
    | property p =>
      obtain ⟨_, -, hleaf⟩ := exists_of_mem_left hproperties (by simpa [Members.all] using hm)
      exact hleaf.wellFormed_of_reaches hx
    | child c =>
      have hmem : c ∈ children := by simpa [Members.all] using hm
      obtain ⟨i, hi, hchild⟩ := exists_of_mem_left hchildren hmem
      have hunique := hc.unique_item unique hi
      refine hchild.wellFormed_of_members hunique (fun inside hinside m hm y hy => ?_) hx
      obtain ⟨members, hmembers, hdescribes⟩ := hchild.members
      rw [hinside, Option.some.injEq] at hmembers
      subst hmembers
      exact ih c hmem hinside hunique hdescribes hm hy
    | command k =>
      obtain ⟨i, hi, hcommand⟩ := exists_of_mem_left hcommands (by simpa [Members.all] using hm)
      exact hcommand.wellFormed_of_reaches (hk.unique_item unique hi) hx
  | collection label template ih => exact ih hd unique h hm hx
  | leaf => cases hd
  | command => cases hd

theorem Describes.wellFormed_of_reaches {d x : Descriptor} {item : Item}
    (h : Describes options d item) (unique : (Json.obj item.entry).Unique) (hx : d.Reaches x) :
    x.WellFormed options.pathArgument := by
  refine h.wellFormed_of_members unique (fun members hmembers m hm y hy => ?_) hx
  obtain ⟨found, hfound, hdescribes⟩ := h.members
  rw [hmembers, Option.some.injEq] at hfound
  subst hfound
  exact wellFormed_below_members hmembers unique hdescribes hm hy

/-- Well-formedness is all that looking up local names needs. A collection is looked into through
its template. -/
theorem Descriptor.invertible_of_wellFormed {d : Descriptor} {pathArgument : String}
    (h : ∀ x, d.Reaches x → x.WellFormed pathArgument) : d.Invertible := by
  cases d with
  | container label properties children commands =>
    refine invertible_of_locals (fun members hmembers => ?_) (by simp [signature?])
    cases hmembers
    exact (h _ .root).locals
  | collection label template =>
    refine invertible_of_locals (fun members hmembers => ?_) (by simp [signature?])
    have hkind := (h _ .root).1
    cases template with
    | container inner properties children commands =>
      cases hmembers
      exact (h _ (.template .root)).locals
    | _ => simp [kind] at hkind
  | leaf label primitive => exact invertible_of_locals (by simp [members?]) (by simp [signature?])
  | command label arguments essential supplied query =>
    refine invertible_of_locals (by simp [members?]) fun signature hsignature => ?_
    cases hsignature
    exact (h _ .root).locals

theorem wellFormed_of_compile {raw : Json} {rootType : String} {schema : Compiled}
    (unique : raw.Unique) (compiled : compile raw rootType options = .ok schema) {d : Descriptor}
    (hd : schema.root.Reaches d) : d.WellFormed options.pathArgument := by
  obtain ⟨top, entry, ordinal, root, rfl, hget, -, -, hroot, -, rfl⟩ :=
    compile_eq_ok_iff.1 compiled
  exact hroot.wellFormed_of_reaches (unique.member (Keyed.mem_of_get? hget)) hd

/-- Every position of a compiled schema is well-formed, and looking up local names undoes their
assignment there. -/
theorem compiled_wellFormed {raw : Json} {rootType : String} {schema : Compiled}
    (unique : raw.Unique) (compiled : compile raw rootType options = .ok schema) :
    schema.root.kind = .container ∧ ∀ d, schema.root.Reaches d →
      d.WellFormed options.pathArgument ∧ d.Invertible := by
  have hall {d : Descriptor} (hd : schema.root.Reaches d) : d.WellFormed options.pathArgument :=
    wellFormed_of_compile unique compiled hd
  refine ⟨?_, fun d hd => ⟨hall hd, ?_⟩⟩
  · obtain ⟨top, entry, ordinal, root, rfl, -, -, hfixed, hroot, -, rfl⟩ :=
      compile_eq_ok_iff.1 compiled
    exact hroot.kind_of_fixed hfixed
  · exact Descriptor.invertible_of_wellFormed fun x hx => hall (hd.trans hx)

end

/-! ### A schema in which names collide

A property and a command have one name, and so have an argument and the argument that receives the
path. One of two regions would get the name of a child.
-/

namespace Crowded

def leafEntry (tag : String) (ordinal : Int) : Json :=
  .obj [("type", .str tag), ("ordinal", .int ordinal)]

/-- The arguments of the command; the path is also listed as essential. -/
def arguments : Json := .obj [("ObjectPath", .obj []),
  ("maxSteps", leafEntry "Integer" 1), ("MaxSteps", leafEntry "Integer" 0)]

def entry : Entry := [
  ("__parameters", .obj [("Run", leafEntry "Logical" 0)]),
  ("__children", .obj [
    ("Region", .obj [("isNamed", .bool true), ("ordinal", .int 1),
      ("__parameters", .obj [("Topology", leafEntry "String" 0)])]),
    ("run", .obj [("ordinal", .int 0)])]),
  ("__commands", .obj [("Run", .obj [("isQuery", .null), ("args", arguments),
    ("essentialArgs", .arr [.str "ObjectPath", .str "maxSteps"])])])]

def raw : Json := .obj [("Root", .obj entry)]

def region : Label := ⟨"Region", "region", 1⟩

def command : Descriptor :=
  .command ⟨"Run", "run_2", lastOrdinal⟩
    [.leaf ⟨"MaxSteps", "max_steps", 0⟩ .integer, .leaf ⟨"maxSteps", "max_steps_1", 1⟩ .integer]
    ["maxSteps"] (some "ObjectPath") false

def root : Descriptor :=
  .container ⟨"Root", "root", lastOrdinal⟩ [.leaf ⟨"Run", "run", 0⟩ .logical]
    [.container ⟨"run", "run_1", 0⟩ [] [] [],
      .collection region
        (.container region [.leaf ⟨"Topology", "topology", 0⟩ .string] [] [])]
    [command]

def schema : Compiled := ⟨raw.digest, Options.digest {}, "Root", root⟩

theorem compiled : compile raw "Root" {} = .ok schema :=
  compile_eq_ok_of_container rfl (Or.inl ⟨Or.inl rfl, rfl⟩) (by decide +kernel)

theorem unique : raw.Unique := by
  simp [raw, entry, arguments, leafEntry, Json.Unique, Json.UniqueMembers, Json.UniqueItems,
    Keyed.Distinct, Json.int]

end Crowded

/-- The local names that were numbered lead back to the remote names that collided. -/
theorem compiled_wellFormed_crowded :
    Crowded.raw.Unique ∧ compile Crowded.raw "Root" {} = .ok Crowded.schema ∧
      Crowded.command.WellFormed "ObjectPath" ∧
      Crowded.command.remoteArgument? "max_steps_1" = some "maxSteps" ∧
      Crowded.root.remoteChild? "run_1" = some "run" := by
  obtain ⟨-, h⟩ := compiled_wellFormed Crowded.unique Crowded.compiled
  have hroot := (h _ .root).2
  obtain ⟨hwell, hinverts⟩ := h Crowded.command (.command (by simp) .root)
  refine ⟨Crowded.unique, Crowded.compiled, hwell, ?_, ?_⟩
  · have hlisted := (hinverts.argument _ rfl "max_steps_1").2 "maxSteps"
    exact hlisted.2 ⟨.leaf ⟨"maxSteps", "max_steps_1", 1⟩ .integer, by simp, rfl, rfl⟩
  · have hlisted := hroot.child _ rfl "run_1" "run"
    exact hlisted.2 ⟨.container ⟨"run", "run_1", 0⟩ [] [] [], by simp, rfl, rfl⟩

end SettingsTree
