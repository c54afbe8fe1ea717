import SettingsTree.Schema.Basic

/-! # Compiled descriptors

A descriptor describes one position of the settings tree: its remote and local names, its ordinal
and what lives there. A collection is described by one template that all its members share.
-/

namespace SettingsTree

/-- What every position has: the identifier that the remote uses, the local name, and the ordinal
among siblings. -/
structure Label where
  remote : String
  localName : String
  ordinal : Int64
  deriving DecidableEq, Repr

/-- One position of the settings tree. -/
inductive Descriptor where
  /-- A container with a fixed shape: its properties, its children and its commands. -/
  | container (label : Label) (properties children commands : List Descriptor)
  | collection (label : Label) (template : Descriptor)
  | leaf (label : Label) (primitive : Primitive)
  /-- A command: its arguments, the remote names of the essential ones, the remote name of the
  argument that receives the path of the object, if there is one, and whether it is a query. -/
  | command (label : Label) (arguments : List Descriptor) (essential : List String)
      (pathArgument : Option String) (query : Bool)
  deriving Repr

/-- The members of a container, each list in the order of the ordinals. -/
structure Members where
  properties : List Descriptor
  children : List Descriptor
  commands : List Descriptor

/-- What a caller of a command needs to know. -/
structure Signature where
  arguments : List Descriptor
  essential : List String
  pathArgument : Option String
  query : Bool

/-- A member of a container, found by its local name. -/
inductive Member where
  | property (descriptor : Descriptor)
  | child (descriptor : Descriptor)
  | command (descriptor : Descriptor)

namespace Descriptor

def label : Descriptor → Label
  | container label .. => label
  | collection label _ => label
  | leaf label _ => label
  | command label .. => label

def remote (d : Descriptor) : String := d.label.remote

def localName (d : Descriptor) : String := d.label.localName

def ordinal (d : Descriptor) : Int64 := d.label.ordinal

def kind : Descriptor → Kind
  | container .. => .container
  | collection .. => .collection
  | leaf .. => .property
  | command .. => .command

/-- The members of a container; those of the template for a collection. -/
def members? : Descriptor → Option Members
  | container _ properties children commands => some ⟨properties, children, commands⟩
  | collection _ template => template.members?
  | _ => none

def template? : Descriptor → Option Descriptor
  | collection _ template => some template
  | _ => none

def primitive? : Descriptor → Option Primitive
  | leaf _ primitive => some primitive
  | _ => none

def signature? : Descriptor → Option Signature
  | command _ arguments essential pathArgument query =>
    some ⟨arguments, essential, pathArgument, query⟩
  | _ => none

end Descriptor

/-- The first descriptor with this local name. -/
def byLocal? (name : String) (descriptors : List Descriptor) : Option Descriptor :=
  descriptors.find? fun d => d.localName = name

/-- The first descriptor with this remote name. -/
def byRemote? (name : String) (descriptors : List Descriptor) : Option Descriptor :=
  descriptors.find? fun d => d.remote = name

namespace Members

/-- The member with this local name: a property before a child, a child before a command. -/
def lookup? (members : Members) (name : String) : Option Member :=
  match byLocal? name members.properties with
  | some d => some (.property d)
  | none =>
    match byLocal? name members.children with
    | some d => some (.child d)
    | none => (byLocal? name members.commands).map .command

/-- The first member with this remote name: a property before a child, a child before a command. -/
def descend? (members : Members) (name : String) : Option Descriptor :=
  byRemote? name (members.properties ++ members.children ++ members.commands)

end Members

namespace Signature

def argument? (signature : Signature) (name : String) : Option Descriptor :=
  byLocal? name signature.arguments

/-- Whether the argument with this remote name must be given. -/
def isEssential (signature : Signature) (name : String) : Bool := signature.essential.contains name

def argumentNames (signature : Signature) : List String :=
  signature.arguments.map Descriptor.localName

def essentialNames (signature : Signature) : List String :=
  (signature.arguments.filter fun a => signature.isEssential a.remote).map Descriptor.localName

def isPathScoped (signature : Signature) : Bool := signature.pathArgument.isSome

end Signature

namespace Descriptor

/-- The member that one step of a type path leads to. -/
def descend? (d : Descriptor) (remote : String) : Option Descriptor :=
  d.members?.bind (Members.descend? · remote)

def remoteProperty? (d : Descriptor) (name : String) : Option String :=
  d.members?.bind fun members => (byLocal? name members.properties).map remote

def remoteChild? (d : Descriptor) (name : String) : Option String :=
  d.members?.bind fun members => (byLocal? name members.children).map remote

def remoteArgument? (d : Descriptor) (name : String) : Option String :=
  d.signature?.bind fun signature => (signature.argument? name).map remote

mutual
def beq : Descriptor → Descriptor → Bool
  | container l ps cs ms, container l' ps' cs' ms' =>
    l == l' && beqAll ps ps' && beqAll cs cs' && beqAll ms ms'
  | collection l t, collection l' t' => l == l' && beq t t'
  | leaf l p, leaf l' p' => l == l' && p == p'
  | command l as es p q, command l' as' es' p' q' =>
    l == l' && beqAll as as' && es == es' && p == p' && q == q'
  | _, _ => false
def beqAll : List Descriptor → List Descriptor → Bool
  | [], [] => true
  | d :: ds, d' :: ds' => beq d d' && beqAll ds ds'
  | _, _ => false
end

mutual
theorem beq_iff (d e : Descriptor) : beq d e = true ↔ d = e := by
  cases d with
  | container l ps cs ms =>
    cases e <;> simp [beq, beqAll_iff ps, beqAll_iff cs, beqAll_iff ms, and_assoc]
  | collection l t => cases e <;> simp [beq, beq_iff t]
  | leaf l p => cases e <;> simp [beq]
  | command l as es p q => cases e <;> simp [beq, beqAll_iff as, and_assoc]
theorem beqAll_iff (ds es : List Descriptor) : beqAll ds es = true ↔ ds = es := by
  cases ds with
  | nil => cases es <;> simp [beqAll]
  | cons d ds => cases es <;> simp [beqAll, beq_iff d, beqAll_iff ds]
end

instance : DecidableEq Descriptor := fun d e => decidable_of_iff _ (beq_iff d e)

end Descriptor

end SettingsTree
