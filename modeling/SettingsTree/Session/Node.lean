import SettingsTree.Schema.Descriptor

/-! # Objects of a session

A session has a tree of objects. The tree of a container is fixed by its descriptor, except that a
collection gets and loses members. An object is given by the way to it from the root of its session:
its owner, its place there and its descriptor. A member also has a serial number, since the members
that a collection has under one name at different times are different objects.
-/

namespace SettingsTree

/-- A step from an owner to something that it owns. -/
inductive Hop where
  | session (number : Nat)
  /-- The container or collection at a place among the children. -/
  | child (position : Nat)
  /-- The property at a place among the properties. -/
  | property (position : Nat)
  /-- The command at a place among the commands. -/
  | command (position : Nat)
  | member (serial : Nat)
  deriving DecidableEq, Repr

/-- The identity of an object: the steps to it from the root, last one first. -/
abbrev Address := List Hop

inductive Container where
  | root (session : Nat) (descriptor : Descriptor)
  | child (parent : Container) (position : Nat) (descriptor : Descriptor)
  /-- A member of the collection that `owner` has at a position. -/
  | member (owner : Container) (position : Nat) (collection : Descriptor) (name : String)
      (serial : Nat)

namespace Container

/-- The identity of a container. -/
def address : Container → Address
  | root session _ => [.session session]
  | child parent position _ => .child position :: parent.address
  | member owner position _ _ serial => .member serial :: .child position :: owner.address

/-- The descriptor of a container; for a member this is the template of its collection. -/
def descriptor : Container → Descriptor
  | root _ descriptor => descriptor
  | child _ _ descriptor => descriptor
  | member _ _ collection _ _ => collection.template?.getD collection

def memberName? : Container → Option String
  | member _ _ _ name _ => some name
  | _ => none

end Container

structure Collection where
  owner : Container
  position : Nat
  descriptor : Descriptor

namespace Collection

def address (c : Collection) : Address := .child c.position :: c.owner.address

def member (c : Collection) (name : String) (serial : Nat) : Container :=
  .member c.owner c.position c.descriptor name serial

end Collection

/-- A primitive setting of a container. -/
structure Leaf where
  owner : Container
  position : Nat
  label : Label
  primitive : Primitive

namespace Leaf

def address (l : Leaf) : Address := .property l.position :: l.owner.address

def descriptor (l : Leaf) : Descriptor := .leaf l.label l.primitive

end Leaf

structure Command where
  owner : Container
  position : Nat
  label : Label
  signature : Signature

namespace Command

def address (c : Command) : Address := .command c.position :: c.owner.address

def descriptor (c : Command) : Descriptor :=
  .command c.label c.signature.arguments c.signature.essential c.signature.pathArgument
    c.signature.query

end Command

/-- Any object of a session. -/
inductive Node where
  | container (c : Container)
  | collection (c : Collection)
  | leaf (l : Leaf)
  | command (c : Command)

namespace Node

/-- The identity of an object. -/
def address : Node → Address
  | container c => c.address
  | collection c => c.address
  | leaf l => l.address
  | command c => c.address

def descriptor : Node → Descriptor
  | container c => c.descriptor
  | collection c => c.descriptor
  | leaf l => l.descriptor
  | command c => c.descriptor

def container? : Node → Option Container
  | container c => some c
  | _ => none

def collection? : Node → Option Collection
  | collection c => some c
  | _ => none

def leaf? : Node → Option Leaf
  | leaf l => some l
  | _ => none

def command? : Node → Option Command
  | command c => some c
  | _ => none

end Node

namespace Container

/-- The members that the descriptor of a container declares. -/
def members (c : Container) : Members := c.descriptor.members?.getD ⟨[], [], []⟩

/-- The primitive setting that a declared property stands for. -/
def leafAt? (c : Container) (position : Nat) : Descriptor → Option Leaf
  | .leaf label primitive => some ⟨c, position, label, primitive⟩
  | _ => none

/-- The container or collection that a declared child stands for. -/
def childAt (c : Container) (position : Nat) (d : Descriptor) : Node :=
  match d with
  | .collection .. => .collection ⟨c, position, d⟩
  | _ => .container (.child c position d)

/-- The command that a declared command stands for. -/
def commandAt? (c : Container) (position : Nat) : Descriptor → Option Command
  | .command label arguments essential pathArgument query =>
    some ⟨c, position, label, ⟨arguments, essential, pathArgument, query⟩⟩
  | _ => none

def leaves (c : Container) : List Leaf :=
  c.members.properties.zipIdx.filterMap fun d => c.leafAt? d.2 d.1

def children (c : Container) : List Node := c.members.children.zipIdx.map fun d => c.childAt d.2 d.1

def commands (c : Container) : List Command :=
  c.members.commands.zipIdx.filterMap fun d => c.commandAt? d.2 d.1

end Container

end SettingsTree
