import SettingsTree.Proofs.Pointwise
import SettingsTree.Proofs.Schema.Lookup
import SettingsTree.Proofs.Schema.Translation

/-! # The positions of a compiled tree

Every position of a compiled tree describes an entry, or is the template of a collection that does.
What one position owes to its own entry holds therefore everywhere in the tree.
-/

namespace SettingsTree

open Entry Name

/-- The positions of a tree: the root, the members of its containers, the templates of its
collections and the arguments of its commands. -/
inductive Descriptor.Reaches (root : Descriptor) : Descriptor → Prop
  | root : Reaches root root
  | property {label properties children commands p} (mem : p ∈ properties)
      (h : Reaches root (.container label properties children commands)) : Reaches root p
  | child {label properties children commands c} (mem : c ∈ children)
      (h : Reaches root (.container label properties children commands)) : Reaches root c
  | command {label properties children commands m} (mem : m ∈ commands)
      (h : Reaches root (.container label properties children commands)) : Reaches root m
  | template {label template} (h : Reaches root (.collection label template)) :
      Reaches root template
  | argument {label arguments essential pathArgument query a} (mem : a ∈ arguments)
      (h : Reaches root (.command label arguments essential pathArgument query)) : Reaches root a

theorem Descriptor.Reaches.trans {root d e : Descriptor} (hd : root.Reaches d) (he : d.Reaches e) :
    root.Reaches e := by
  induction he with
  | root => exact hd
  | property mem _ ih => exact .property mem ih
  | child mem _ ih => exact .child mem ih
  | command mem _ ih => exact .command mem ih
  | template _ ih => exact .template ih
  | argument mem _ ih => exact .argument mem ih

def Descriptor.parts : Descriptor → List Descriptor
  | container _ properties children commands => properties ++ children ++ commands
  | collection _ template => [template]
  | leaf .. => []
  | command _ arguments .. => arguments

theorem Descriptor.Reaches.of_part {d m x : Descriptor} (mem : m ∈ d.parts) (h : m.Reaches x) :
    d.Reaches x := by
  refine Reaches.trans ?_ h
  cases d with
  | container label properties children commands =>
    rw [parts, List.mem_append, List.mem_append] at mem
    rcases mem with (mem | mem) | mem
    · exact .property mem .root
    · exact .child mem .root
    · exact .command mem .root
  | collection label template =>
    rw [parts, List.mem_singleton] at mem
    rw [mem]
    exact .template .root
  | leaf => simp [parts] at mem
  | command => exact .argument mem .root

theorem Descriptor.Reaches.of_child {label : Label} {properties children commands : List Descriptor}
    {c x : Descriptor} (mem : c ∈ children) (h : c.Reaches x) :
    (container label properties children commands).Reaches x := .trans (.child mem .root) h

theorem Descriptor.Reaches.of_template {label : Label} {template x : Descriptor}
    (h : template.Reaches x) : (collection label template).Reaches x := .trans (.template .root) h

/-- A position is the root or lies below one of the parts of the root. -/
theorem Descriptor.reaches_iff {d x : Descriptor} :
    d.Reaches x ↔ x = d ∨ ∃ m ∈ d.parts, m.Reaches x := by
  constructor
  · intro h
    -- the last step of a way down is a step from the root or extends a way below a part
    have extend {y z : Descriptor} (mem : z ∈ y.parts) (ih : y = d ∨ ∃ m ∈ d.parts, m.Reaches y) :
        ∃ m ∈ d.parts, m.Reaches z := by
      rcases ih with rfl | ⟨m, hm, hy⟩
      · exact ⟨z, mem, .root⟩
      · exact ⟨m, hm, hy.trans (.of_part mem .root)⟩
    induction h with
    | root => exact Or.inl rfl
    | property mem _ ih => exact Or.inr (extend (by simp [parts, mem]) ih)
    | child mem _ ih => exact Or.inr (extend (by simp [parts, mem]) ih)
    | command mem _ ih => exact Or.inr (extend (by simp [parts, mem]) ih)
    | template _ ih => exact Or.inr (extend (by simp [parts]) ih)
    | argument mem _ ih => exact Or.inr (extend (by simp [parts, mem]) ih)
  · rintro (rfl | ⟨m, hm, h⟩)
    · exact .root
    · exact .of_part hm h

theorem Descriptor.forall_reaches_iff {d : Descriptor} {P : Descriptor → Prop} :
    (∀ x, d.Reaches x → P x) ↔ P d ∧ ∀ m ∈ d.parts, ∀ x, m.Reaches x → P x := by
  simp only [reaches_iff (d := d)]
  constructor
  · intro h
    exact ⟨h d (Or.inl rfl), fun m hm x hx => h x (Or.inr ⟨m, hm, hx⟩)⟩
  · rintro ⟨hd, hparts⟩ x (rfl | ⟨m, hm, hx⟩)
    · exact hd
    · exact hparts m hm x hx

theorem Descriptor.reaches_member {d : Descriptor} {members : Members}
    (h : d.members? = some members)
    {m : Member} (hm : m ∈ members.all) : d.Reaches m.descriptor := by
  induction d with
  | container label properties children commands =>
    cases h
    simp only [Members.all, List.mem_append, List.mem_map] at hm
    rcases hm with (⟨d, hd, rfl⟩ | ⟨d, hd, rfl⟩) | ⟨d, hd, rfl⟩
    · exact .property hd .root
    · exact .child hd .root
    · exact .command hd .root
  | collection label template ih => exact .of_template (ih h)
  | leaf | command => simp [members?] at h

theorem Descriptor.reaches_template {tree d : Descriptor} (h : tree.Reaches d) :
    tree.Reaches (d.template?.getD d) := by
  cases d with
  | collection label template => exact .template h
  | container | leaf | command => exact h

variable {options : Options}

theorem DescribesLeaf.kind {d : Descriptor} {item : Item} (h : DescribesLeaf d item) :
    d.kind = .property := by
  obtain ⟨_, _, _, _, _, rfl⟩ := h
  rfl

theorem DescribesCommand.kind {d : Descriptor} {item : Item} (h : DescribesCommand options d item) :
    d.kind = .command := by
  obtain ⟨_, _, _, _, _, _, _, _, _, _, _, rfl⟩ := h
  rfl

theorem Describes.kind {d : Descriptor} {item : Item} (h : Describes options d item) :
    d.kind = .container ∨ d.kind = .collection := by
  unfold Describes at h
  split at h
  · exact Or.inl rfl
  · exact Or.inr rfl
  · exact h.elim

/-- A position that compiling some entry yields. -/
inductive Described (options : Options) : Descriptor → Prop
  | inside {d item} (h : Describes options d item) : Described options d
  | leaf {d item} (h : DescribesLeaf d item) : Described options d
  | command {d item} (h : DescribesCommand options d item) : Described options d
  | template {label template item} (h : Describes options (.collection label template) item) :
      Described options template

/-- The template of a collection is a container with the label of the collection. -/
theorem Describes.template {label : Label} {template : Descriptor} {item : Item}
    (h : Describes options (.collection label template) item) :
    ∃ properties children commands, template = .container label properties children commands ∧
      DescribesMembers options properties children commands (DescribesAll options children)
        item.entry := by
  cases template with
  | container inner properties children commands =>
    obtain ⟨-, -, -, rfl, hmembers⟩ := h
    exact ⟨properties, children, commands, rfl, hmembers⟩
  | _ => exact h.elim

theorem Describes.kind_of_fixed {d : Descriptor} {item : Item} (h : Describes options d item)
    (hfixed : item.entry.IsFixed) : d.kind = .container := by
  cases d with
  | container => rfl
  | collection label template =>
    obtain ⟨_, _, _, rfl, -⟩ := h.template
    exact absurd h.2.2.1 hfixed.2.1.not_collection
  | _ => exact h.elim

theorem Described.members {label : Label} {properties children commands : List Descriptor}
    (h : Described options (.container label properties children commands)) :
    ∃ entry, DescribesMembers options properties children commands
      (DescribesAll options children) entry := by
  cases h with
  | inside h => exact ⟨_, h.2.2.2⟩
  | leaf h => exact absurd h.kind (by simp [Descriptor.kind])
  | command h => exact absurd h.kind (by simp [Descriptor.kind])
  | template h =>
    obtain ⟨_, _, _, htemplate, hmembers⟩ := h.template
    cases htemplate
    exact ⟨_, hmembers⟩

theorem Described.collection {label : Label} {template : Descriptor}
    (h : Described options (.collection label template)) :
    ∃ item, Describes options (.collection label template) item := by
  cases h with
  | inside h => exact ⟨_, h⟩
  | leaf h => exact absurd h.kind (by simp [Descriptor.kind])
  | command h => exact absurd h.kind (by simp [Descriptor.kind])
  | template h =>
    obtain ⟨_, _, _, htemplate, -⟩ := h.template
    cases htemplate

theorem Described.arguments {label : Label} {arguments : List Descriptor} {essential : List String}
    {pathArgument : Option String} {query : Bool}
    (h : Described options (.command label arguments essential pathArgument query)) :
    ∃ item,
      DescribesCommand options (.command label arguments essential pathArgument query) item := by
  cases h with
  | inside h => exact h.elim
  | leaf h => exact absurd h.kind (by simp [Descriptor.kind])
  | command h => exact ⟨_, h⟩
  | template h =>
    obtain ⟨_, _, _, htemplate, -⟩ := h.template
    cases htemplate

/-- Each step down a described tree leads to a described position. -/
theorem described_of_reaches {root d : Descriptor} {item : Item}
    (h : Describes options root item) (hd : root.Reaches d) : Described options d := by
  induction hd with
  | root => exact .inside h
  | property mem _ ih =>
    obtain ⟨_, _, _, _, -, -, -, hproperties, -⟩ := ih.members
    obtain ⟨_, -, hleaf⟩ := exists_of_mem_left hproperties mem
    exact .leaf hleaf
  | child mem _ ih =>
    obtain ⟨_, _, _, _, -, -, -, -, hchildren, -⟩ := ih.members
    obtain ⟨_, -, hchild⟩ := exists_of_mem_left (describesAll_iff.1 hchildren) mem
    exact .inside hchild
  | command mem _ ih =>
    obtain ⟨_, _, _, _, -, -, -, -, -, hcommands, -⟩ := ih.members
    obtain ⟨_, -, hcommand⟩ := exists_of_mem_left hcommands mem
    exact .command hcommand
  | template _ ih =>
    obtain ⟨_, h⟩ := ih.collection
    exact .template h
  | argument mem _ ih =>
    obtain ⟨_, _, _, _, _, _, -, -, -, -, harguments, -, heq⟩ := ih.arguments
    cases heq
    obtain ⟨_, -, hleaf⟩ := exists_of_mem_left harguments mem
    exact .leaf hleaf

end SettingsTree
