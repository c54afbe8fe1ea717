import SettingsTree.Proofs.Pointwise
import SettingsTree.Proofs.Schema.Translation

/-! # The compiler accepts the valid schemas

An entry can be described, under any local name, exactly when it has the format. So the schemas that
compile are the valid ones, and what comes out is the one tree that describes the entry of the root
type.
-/

namespace SettingsTree

open Entry Name

variable {options : Options} {part : Section} {entry : Entry} {items : List Item}

/-! ### Sections -/

namespace Entry

theorem Reads.of_item (h : Reads part entry items) {i : Item} (hi : i ∈ items) :
    ∃ members, Keyed.get? part.key entry = some (.obj members) ∧
      (i.name, .obj i.entry) ∈ members ∧ HasOrdinal i.entry i.ordinal := by
  obtain ⟨listed, hlists, horder⟩ := h
  have hlisted : i ∈ listed := horder.perm.mem_iff.1 hi
  rcases hlists with ⟨-, rfl⟩ | ⟨members, hget, hall⟩
  · simp at hlisted
  · obtain ⟨member, hmember, hitem⟩ := exists_of_mem_right hall hlisted
    refine ⟨members, hget, ?_, hitem.ordinal⟩
    rw [← hitem.name, ← hitem.value]
    exact hmember

theorem Reads.of_member (h : Reads part entry items) {members : Keyed Json}
    (hget : Keyed.get? part.key entry = some (.obj members)) {member : String × Json}
    (hmember : member ∈ members) : ∃ i ∈ items, IsItem member i := by
  obtain ⟨listed, hlists, horder⟩ := h
  rcases hlists with ⟨hlacks, -⟩ | ⟨members', hget', hall⟩
  · simp [Lacks, hget] at hlacks
  · rw [hget, Option.some.injEq, Json.obj.injEq] at hget'
    subst hget'
    obtain ⟨i, hi, hitem⟩ := exists_of_mem_left hall hmember
    exact ⟨i, horder.perm.mem_iff.2 hi, hitem⟩

theorem holds_iff (h : Reads part entry items) {name : String} {inner : Entry} :
    Holds part entry name inner ↔ ∃ i ∈ items, i.name = name ∧ i.entry = inner := by
  constructor
  · rintro ⟨members, hget, hmember⟩
    obtain ⟨i, hi, hitem⟩ := h.of_member hget hmember
    exact ⟨i, hi, hitem.name.symm, (Json.obj.inj hitem.value).symm⟩
  · rintro ⟨i, hi, rfl, rfl⟩
    obtain ⟨members, hget, hmember, -⟩ := h.of_item hi
    exact ⟨members, hget, hmember⟩

/-- A section is valid when it can be read and each of its items is as it should be. -/
theorem validSection_iff {valid : String → Entry → Prop} :
    ValidSection part entry valid ↔
      ∃ items, Reads part entry items ∧ ∀ i ∈ items, valid i.name i.entry := by
  constructor
  · rintro (hlacks | ⟨members, hget, hall⟩)
    · exact ⟨[], ⟨[], Or.inl ⟨hlacks, rfl⟩, sortOn_inOrder []⟩, by simp⟩
    · have hitems : ∀ member ∈ members, ∃ i, IsItem member i ∧ valid i.name i.entry := by
        intro member hmember
        obtain ⟨inner, hvalue, ⟨ordinal, hordinal⟩, hvalid⟩ := hall member hmember
        exact ⟨⟨member.1, inner, ordinal⟩, ⟨rfl, hvalue, hordinal⟩, hvalid⟩
      obtain ⟨listed, hlisted⟩ := exists_forall₂ hitems
      refine ⟨sortOn precedes listed,
        ⟨listed, Or.inr ⟨members, hget, ?_⟩, sortOn_inOrder listed⟩, ?_⟩
      · exact hlisted.imp fun _ _ h => h.1
      · intro i hi
        obtain ⟨_, -, -, hvalid⟩ := exists_of_mem_right hlisted (mem_sortOn.1 hi)
        exact hvalid
  · rintro ⟨items, hreads, hall⟩
    have ⟨listed, hlists, horder⟩ := hreads
    rcases hlists with ⟨hlacks, -⟩ | ⟨members, hget, -⟩
    · exact Or.inl hlacks
    · refine Or.inr ⟨members, hget, fun member hmember => ?_⟩
      obtain ⟨i, hi, hitem⟩ := hreads.of_member hget hmember
      refine ⟨i.entry, hitem.value, ⟨i.ordinal, hitem.ordinal⟩, ?_⟩
      rw [hitem.name]
      exact hall i hi

end Entry

/-! ### Properties and commands -/

theorem exists_named {R : Descriptor → Item → Prop}
    (h : ∀ i ∈ items, ∀ localName, ∃ d : Descriptor, R d i ∧ d.localName = localName)
    (locals : List String) (hlength : locals.length = items.length) :
    ∃ ds, List.Forall₂ R ds items ∧ ds.map Descriptor.localName = locals := by
  have hpairs : ∀ a ∈ locals.zip items, ∃ d, R d a.2 ∧ d.localName = a.1 :=
    fun a ha => h a.2 (List.of_mem_zip ha).2 a.1
  obtain ⟨ds, hds⟩ := exists_forall₂ hpairs
  rw [forall₂_zip_iff (by omega)] at hds
  refine ⟨ds, hds.1, ?_⟩
  rw [hds.2, ← hlength, List.take_length]

theorem exists_describesLeaf {item : Item} (h : item.entry.IsPrimitive) (localName : String) :
    ∃ d, DescribesLeaf d item ∧ d.localName = localName := by
  obtain ⟨tag, primitive, hleaf, hprimitive⟩ := h
  exact ⟨_, ⟨localName, tag, primitive, hleaf, hprimitive, rfl⟩, rfl⟩

theorem DescribesLeaf.isPrimitive {d : Descriptor} {item : Item} (h : DescribesLeaf d item) :
    item.entry.IsPrimitive := by
  obtain ⟨_, tag, primitive, hleaf, hprimitive, -⟩ := h
  exact ⟨tag, primitive, hleaf, hprimitive⟩

theorem exists_describesCommand {item : Item} (h : item.entry.ValidCommand options)
    (localName : String) : ∃ d, DescribesCommand options d item ∧ d.localName = localName := by
  obtain ⟨⟨query, hquery⟩, harguments, names, hnames, hdeclared⟩ := h
  obtain ⟨listed, hreads, hvalid⟩ := validSection_iff.1 harguments
  have hleaves : ∀ i ∈ listed.filter (·.name ≠ options.pathArgument), ∀ name,
      ∃ d, DescribesLeaf d i ∧ d.localName = name := by
    intro i hi
    obtain ⟨hlisted, hname⟩ := List.mem_filter.1 hi
    rcases hvalid i hlisted with heq | hprimitive
    · exact absurd heq (of_decide_eq_true hname)
    · exact exists_describesLeaf hprimitive
  obtain ⟨arguments, hdescribed, hlocals⟩ := exists_named hleaves
    (distinguishAll ((listed.filter (·.name ≠ options.pathArgument)).map fun a =>
      options.naming.localName a.name)) (by simp)
  refine ⟨_, ⟨localName, arguments, listed, names, query, hreads, hnames, hquery, ?_, hdescribed,
    hlocals, rfl⟩, rfl⟩
  intro name hname
  obtain ⟨inner, hholds⟩ := hdeclared name hname
  obtain ⟨i, hi, rfl, -⟩ := (holds_iff hreads).1 hholds
  exact List.mem_map_of_mem hi

theorem DescribesCommand.valid {d : Descriptor} {item : Item}
    (h : DescribesCommand options d item) : item.entry.ValidCommand options := by
  obtain ⟨_, arguments, listed, names, query, hreads, hnames, hquery, hdeclared, hdescribed, -,
    -⟩ := h
  refine ⟨⟨query, hquery⟩, validSection_iff.2 ⟨listed, hreads, fun i hi => ?_⟩, names, hnames, ?_⟩
  · by_cases hname : i.name = options.pathArgument
    · exact Or.inl hname
    · have hmem : i ∈ listed.filter (·.name ≠ options.pathArgument) :=
        List.mem_filter.2 ⟨hi, decide_eq_true hname⟩
      obtain ⟨_, -, hleaf⟩ := exists_of_mem_right hdescribed hmem
      exact Or.inr hleaf.isPrimitive
  · intro name hname
    obtain ⟨i, hi, rfl⟩ := List.mem_map.1 (hdeclared name hname)
    exact ⟨i.entry, (holds_iff hreads).2 ⟨i, hi, rfl, rfl⟩⟩

/-! ### Containers -/

/-- An entry has members that describe its sections. -/
def HasMembers (options : Options) (entry : Entry) : Prop :=
  ∃ properties children commands,
    DescribesMembers options properties children commands (DescribesAll options children) entry

theorem exists_describes {item : Item} (hmark : item.entry.IsFixed ∨ item.entry.IsCollection)
    (h : HasMembers options item.entry) (localName : String) :
    ∃ d, Describes options d item ∧ d.localName = localName := by
  obtain ⟨properties, children, commands, hmembers⟩ := h
  have hlabel : Label.localName ⟨item.name, localName, item.ordinal⟩ = localName := rfl
  rcases hmark with hfixed | hcollection
  · exact ⟨.container ⟨item.name, localName, item.ordinal⟩ properties children commands,
      ⟨rfl, rfl, hfixed, hmembers⟩, hlabel⟩
  · exact ⟨.collection ⟨item.name, localName, item.ordinal⟩
        (.container ⟨item.name, localName, item.ordinal⟩ properties children commands),
      ⟨rfl, rfl, hcollection, rfl, hmembers⟩, hlabel⟩

theorem Describes.mark {d : Descriptor} {item : Item} (h : Describes options d item) :
    item.entry.IsFixed ∨ item.entry.IsCollection := by
  unfold Describes at h
  split at h
  · exact Or.inl h.2.2.1
  · exact Or.inr h.2.2.1
  · exact h.elim

theorem Describes.members {d : Descriptor} {item : Item} (h : Describes options d item) :
    ∃ members, d.members? = some members ∧
      DescribesMembers options members.properties members.children members.commands
        (DescribesAll options members.children) item.entry := by
  unfold Describes at h
  split at h
  · exact ⟨⟨_, _, _⟩, rfl, h.2.2.2⟩
  · exact ⟨⟨_, _, _⟩, rfl, h.2.2.2.2⟩
  · exact h.elim

/-- The induction follows the entries: what is listed as a child has members of its own. -/
theorem hasMembers_of_validMembers (h : entry.ValidMembers options) : HasMembers options entry := by
  induction h with
  | @intro entry hparameters hchildren hcommands _ ih =>
    obtain ⟨parameters, hreadsp, hp⟩ := validSection_iff.1 hparameters
    obtain ⟨inner, hreadsc, hc⟩ := validSection_iff.1 hchildren
    obtain ⟨actions, hreadsm, hm⟩ := validSection_iff.1 hcommands
    let locals := distinguishAll
      ((parameters ++ inner ++ actions).map fun i => options.naming.localName i.name)
    have hlength : locals.length = parameters.length + inner.length + actions.length := by
      simp [locals, Nat.add_assoc]
    obtain ⟨properties, hproperties, hplocals⟩ := exists_named
      (fun i hi => exists_describesLeaf (hp i hi)) (locals.take parameters.length)
      (by rw [List.length_take]; omega)
    obtain ⟨children, hchildren, hclocals⟩ := exists_named
      (fun i hi => exists_describes (hc i hi) (ih _ _ ((holds_iff hreadsc).2 ⟨i, hi, rfl, rfl⟩)))
      ((locals.drop parameters.length).take inner.length)
      (by rw [List.length_take, List.length_drop]; omega)
    obtain ⟨commands, hcommands, hmlocals⟩ := exists_named
      (fun i hi => exists_describesCommand (hm i hi))
      (((locals.drop parameters.length).drop inner.length).take actions.length)
      (by rw [List.length_take, List.length_drop, List.length_drop]; omega)
    have hlocals := (Compile.divided_iff hproperties.length_eq hchildren.length_eq
      hcommands.length_eq hlength).1 ⟨hplocals, hclocals, hmlocals⟩
    exact ⟨properties, children, commands, parameters, inner, actions, hreadsp, hreadsc, hreadsm,
      hproperties, describesAll_iff.2 hchildren, hcommands, hlocals⟩

/-- The induction follows the tree: the children of a container describe what is listed as such. -/
theorem validMembers_of_describesMembers {d : Descriptor} {members : Members}
    (hd : d.members? = some members)
    (h : DescribesMembers options members.properties members.children members.commands
      (DescribesAll options members.children) entry) : entry.ValidMembers options := by
  induction d generalizing members entry with
  | container label properties children commands _ ih _ =>
    cases hd
    obtain ⟨parameters, inner, actions, hreadsp, hreadsc, hreadsm, hproperties, hchildren,
      hcommands, -⟩ := h
    rw [describesAll_iff] at hchildren
    refine .intro (validSection_iff.2 ⟨parameters, hreadsp, fun i hi => ?_⟩)
      (validSection_iff.2 ⟨inner, hreadsc, fun i hi => ?_⟩)
      (validSection_iff.2 ⟨actions, hreadsm, fun i hi => ?_⟩) fun name listed hholds => ?_
    · obtain ⟨_, -, hleaf⟩ := exists_of_mem_right hproperties hi
      exact hleaf.isPrimitive
    · obtain ⟨_, -, hchild⟩ := exists_of_mem_right hchildren hi
      exact hchild.mark
    · obtain ⟨_, -, hcommand⟩ := exists_of_mem_right hcommands hi
      exact hcommand.valid
    · obtain ⟨i, hi, -, rfl⟩ := (holds_iff hreadsc).1 hholds
      obtain ⟨c, hc, hchild⟩ := exists_of_mem_right hchildren hi
      obtain ⟨members, hmembers, hdescribes⟩ := hchild.members
      exact ih c hc hmembers hdescribes
  | collection label template ih => exact ih hd h
  | leaf => cases hd
  | command => cases hd

theorem validMembers_of_describes {d : Descriptor} {item : Item} (h : Describes options d item) :
    item.entry.ValidMembers options := by
  obtain ⟨members, hmembers, hdescribes⟩ := h.members
  exact validMembers_of_describesMembers hmembers hdescribes

theorem exists_compile_iff {raw : Json} {rootType : String} :
    (∃ schema, compile raw rootType options = .ok schema) ↔ ValidSchema options rootType raw := by
  simp only [compile_eq_ok_iff]
  constructor
  · rintro ⟨_, top, entry, ordinal, d, hraw, hget, hordinal, hfixed, hdescribes, -, -⟩
    exact ⟨top, entry, hraw, hget, hfixed, ⟨ordinal, hordinal⟩,
      validMembers_of_describes hdescribes⟩
  · rintro ⟨top, entry, hraw, hget, hfixed, ⟨ordinal, hordinal⟩, hvalid⟩
    obtain ⟨d, hdescribes, hlocal⟩ := @exists_describes options ⟨rootType, entry, ordinal⟩
      (Or.inl hfixed) (hasMembers_of_validMembers hvalid) (options.naming.localName rootType)
    exact ⟨_, top, entry, ordinal, d, hraw, hget, hordinal, hfixed, hdescribes, hlocal, rfl⟩

/-- A raw schema compiles exactly when it is valid, and what it compiles to is the one tree, under
the local name of the root type, that describes the entry of the root type: every entry of every
section by one position of its kind, with its name and ordinal, in the order of the ordinals. -/
theorem compiles_iff_validSchema (raw : Json) (rootType : String) (options : Options) :
    ((∃ schema, compile raw rootType options = .ok schema) ↔ ValidSchema options rootType raw) ∧
      ∀ schema, compile raw rootType options = .ok schema ↔
        schema.digest = raw.digest ∧ schema.options = options.digest ∧
          schema.rootType = rootType ∧
          schema.root.localName = options.naming.localName rootType ∧
          ∃ (top : Keyed Json) (entry : Entry) (ordinal : Int64), raw = .obj top ∧
            Keyed.get? rootType top = some (.obj entry) ∧ entry.HasOrdinal ordinal ∧
            entry.IsFixed ∧
            Describes options schema.root ⟨rootType, entry, ordinal⟩ := by
  constructor
  · exact exists_compile_iff
  · intro schema
    rw [compile_eq_ok_iff]
    constructor
    · rintro ⟨top, entry, ordinal, d, hraw, hget, hordinal, hfixed, hdescribes, hlocal, rfl⟩
      exact ⟨rfl, rfl, rfl, hlocal, top, entry, ordinal, hraw, hget, hordinal, hfixed, hdescribes⟩
    · rintro ⟨hdigest, hoptions, hroot, hlocal, top, entry, ordinal, hraw, hget, hordinal, hfixed,
        hdescribes⟩
      refine ⟨top, entry, ordinal, schema.root, hraw, hget, hordinal, hfixed, hdescribes, hlocal,
        ?_⟩
      rw [← hdigest, ← hoptions, ← hroot]

end SettingsTree
