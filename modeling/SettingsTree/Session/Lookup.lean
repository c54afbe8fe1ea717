import SettingsTree.Path.Step
import SettingsTree.Session.Memory

/-! # Paths of objects, and their declared members

The path of an object is put together from its owners, all of which must be alive. A member of a
container is looked up by local name among those that are declared; a name that is not declared is
refused without a call to the remote.
-/

namespace SettingsTree

def Container.path (memory : Memory) : Container → Except ClientError String
  | .root _ d => .ok (Path.render [⟨d.remote, none⟩])
  | .child parent _ d => do
    memory.require parent.address
    return Path.join (← parent.path memory) ⟨d.remote, none⟩
  | .member owner position d name _ => do
    memory.require (Collection.mk owner position d).address
    memory.require owner.address
    return Path.join (← owner.path memory) (.member d.remote name)

namespace Collection

/-- The path of the member with a name, whether or not there is one. -/
def memberPath (memory : Memory) (c : Collection) (name : String) : Except ClientError String := do
  memory.require c.owner.address
  return Path.join (← c.owner.path memory) (.member c.descriptor.remote name)

def path (memory : Memory) (c : Collection) : Except ClientError String := do
  memory.require c.owner.address
  return Path.join (← c.owner.path memory) ⟨c.descriptor.remote, none⟩

end Collection

def Leaf.path (memory : Memory) (l : Leaf) : Except ClientError String := do
  memory.require l.owner.address
  return Path.join (← l.owner.path memory) ⟨l.label.remote, none⟩

def Command.path (memory : Memory) (c : Command) : Except ClientError String := do
  memory.require c.owner.address
  return Path.join (← c.owner.path memory) ⟨c.label.remote, none⟩

def Node.path (memory : Memory) : Node → Except ClientError String
  | .container c => c.path memory
  | .collection c => c.path memory
  | .leaf l => l.path memory
  | .command c => c.path memory

/-- The path of a container's place in the schema. -/
def Container.typePath (memory : Memory) (c : Container) : Except ClientError String :=
  (c.path memory).map Path.typePath

def Collection.typePath (memory : Memory) (c : Collection) : Except ClientError String :=
  (c.path memory).map Path.typePath

/-! ### Declared members -/

namespace Container

def lookup? (c : Container) (name : String) : Option Node :=
  match c.members.lookup? name with
  | none => none
  | some (.property _) =>
    (c.leaves.find? fun l => l.label.localName = name).map .leaf
  | some (.child _) => c.children.find? fun n => n.descriptor.localName = name
  | some (.command _) =>
    (c.commands.find? fun k => k.label.localName = name).map .command

/-- The fault that a container has no member of this name. -/
def unknown {α : Type} (memory : Memory) (c : Container) (name : String) :
    Except ClientError α := do
  throw (.path (.unknownMember (← c.path memory) name))

/-- The fault that the member of this name is of another kind. -/
def mismatch {α : Type} (memory : Memory) (c : Container) (name : String) (wanted : Wanted) :
    Except ClientError α := do
  throw (.path (.kindMismatch (← c.path memory) name wanted))

/-- The member of a name, if it is what is wanted. -/
def pick {α : Type} (wanted : Wanted) (select : Node → Option α) (memory : Memory) (c : Container)
    (name : String) : Except ClientError α :=
  match c.lookup? name with
  | none => c.unknown memory name
  | some n =>
    match select n with
    | some found => .ok found
    | none => c.mismatch memory name wanted

def childNamed : Memory → Container → String → Except ClientError Container :=
  pick .container Node.container?

def collectionNamed : Memory → Container → String → Except ClientError Collection :=
  pick .collection Node.collection?

def propertyNamed : Memory → Container → String → Except ClientError Leaf :=
  pick .property Node.leaf?

def commandNamed : Memory → Container → String → Except ClientError Command :=
  pick .command Node.command?

end Container

end SettingsTree
