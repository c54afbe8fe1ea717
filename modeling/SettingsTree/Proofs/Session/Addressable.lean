import SettingsTree.Proofs.Path.Written
import SettingsTree.Proofs.Schema.Lookup
import SettingsTree.Proofs.Schema.Tree
import SettingsTree.Proofs.Session.Registry

/-! # Trees in which remote names lead somewhere

In an addressable tree, remote names can be written into paths, and those of the members of a
container are all different. Every container of a session is a position of the tree of its schema.
-/

namespace SettingsTree

/-- The members of a position have remote names that can be written into paths and are all
different. -/
def Descriptor.Distinguishes (d : Descriptor) : Prop :=
  ∀ members, d.members? = some members → (∀ m ∈ members.all, Proper m.descriptor.remote) ∧
    (members.all.map fun m => m.descriptor.remote).Nodup

/-- All remote names in a tree can be written into paths, and the members of each position have
different ones. -/
structure Descriptor.Addressable (tree : Descriptor) : Prop where
  proper : Proper tree.remote
  members : ∀ d, tree.Reaches d → d.Distinguishes

/-- What an object is declared as by the container that it belongs to. -/
def Node.declared : Node → Member
  | .leaf l => .property l.descriptor
  | .command k => .command k.descriptor
  | n => .child n.descriptor

@[simp] theorem Node.descriptor_declared (n : Node) : n.declared.descriptor = n.descriptor := by
  cases n <;> rfl

namespace Container

@[simp] theorem declared_childAt (c : Container) (position : Nat) (d : Descriptor) :
    (c.childAt position d).declared = .child d := by
  cases d <;> rfl

variable {c : Container} {tree : Descriptor}

theorem distinct_of_addressable (addressable : tree.Addressable)
    (h : tree.Reaches c.descriptor) : (c.members.all.map fun m => m.descriptor.remote).Nodup := by
  unfold members
  cases hmembers : c.descriptor.members? with
  | none => exact List.nodup_nil
  | some members => exact (addressable.members _ h _ hmembers).2

theorem reaches_of_mem_members (h : tree.Reaches c.descriptor) {m : Member}
    (hm : m ∈ c.members.all) : tree.Reaches m.descriptor := by
  unfold members at hm
  cases hmembers : c.descriptor.members? with
  | none => simp [hmembers, Members.all] at hm
  | some members =>
    rw [hmembers] at hm
    exact h.trans (Descriptor.reaches_member hmembers hm)

theorem proper_of_mem_members (addressable : tree.Addressable)
    (h : tree.Reaches c.descriptor) {m : Member} (hm : m ∈ c.members.all) :
    Proper m.descriptor.remote := by
  unfold members at hm
  cases hmembers : c.descriptor.members? with
  | none => simp [hmembers, Members.all] at hm
  | some members =>
    rw [hmembers] at hm
    exact (addressable.members _ h _ hmembers).1 m hm

theorem Offers.declared_mem {n : Node} (h : c.Offers n) : n.declared ∈ c.members.all := by
  cases h with
  | leaf hl =>
    obtain ⟨position, d, hd, hl⟩ := mem_leaves_iff.1 hl
    obtain rfl := (leafAt?_eq_some hl).2
    simp [Node.declared, Members.all, List.mem_of_getElem? hd]
  | child hn =>
    obtain ⟨position, d, hd, rfl⟩ := mem_children_iff.1 hn
    rw [declared_childAt]
    simp [Members.all, List.mem_of_getElem? hd]
  | command hk =>
    obtain ⟨position, d, hd, hk⟩ := mem_commands_iff.1 hk
    obtain rfl := (commandAt?_eq_some hk).2
    simp [Node.declared, Members.all, List.mem_of_getElem? hd]

theorem Offers.member {n : Node} (h : c.Offers n) :
    ∃ m ∈ c.members.all, m.descriptor = n.descriptor :=
  ⟨n.declared, h.declared_mem, n.descriptor_declared⟩

theorem Offers.reaches {n : Node} (h : c.Offers n) (hc : tree.Reaches c.descriptor) :
    tree.Reaches n.descriptor := by
  obtain ⟨m, hm, hdescriptor⟩ := h.member
  exact hdescriptor ▸ reaches_of_mem_members hc hm

end Container

end SettingsTree
