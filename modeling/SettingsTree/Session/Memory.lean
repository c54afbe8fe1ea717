import SettingsTree.Schema.Selection
import SettingsTree.Session.Node
import SettingsTree.Session.Remote

/-! # What clients remember

Nothing of the remote's state is kept but an index of members for every collection that was looked
at. An object lives as long as something that is kept leads to it: callers keep sessions and
objects, a session owns its root, a container owns what it declares, and a collection owns the
members in its index. Nothing owns the object above it, so an object can outlive the way to the
root.

An operation of a client works on what is remembered and on the remote. What it did before it failed
stays done.
-/

namespace SettingsTree

/-- A connected client. -/
structure Session extends Selected where
  number : Nat

def Session.root (s : Session) : Container := .root s.number s.schema.root

/-- Whether the members of a collection have ever been enumerated. -/
inductive Sync where
  | uninitialized
  | synced
  deriving DecidableEq, Repr

/-- What is known of a collection: its known members, each under its name. -/
structure Index where
  sync : Sync := .uninitialized
  members : Keyed Container := []

/-- What all clients of a remote remember. -/
structure Memory where
  indexes : List (Address × Index) := []
  /-- The sessions that callers keep, each under a name. -/
  sessions : Keyed Session := []
  /-- The objects that callers keep, each under a name. -/
  objects : Keyed Node := []
  /-- A number that no session and no member has. -/
  fresh : Nat := 0

namespace Memory

def index (memory : Memory) (collection : Address) : Index :=
  ((memory.indexes.find? fun entry => entry.1 = collection).map Prod.snd).getD {}

def setIndex (memory : Memory) (collection : Address) (index : Index) : Memory :=
  { memory with
    indexes := (collection, index) :: memory.indexes.filter fun entry => entry.1 ≠ collection }

def held (memory : Memory) : List Address :=
  memory.sessions.map (fun entry => entry.2.root.address) ++
    memory.objects.map fun entry => entry.2.address

/-- Whether an owner that lives keeps what stands at a step from it alive. A collection keeps a
member as long as the member is in its index. -/
def owns (memory : Memory) (owner : Address) (hop : Hop) : Bool :=
  match hop with
  | .session _ => false
  | .member serial => (memory.index owner).members.any fun entry =>
    entry.2.address = .member serial :: owner
  | _ => true

def alive (memory : Memory) : Address → Bool
  | [] => false
  | hop :: owner =>
    memory.held.contains (hop :: owner) || (memory.owns owner hop && memory.alive owner)

/-- Refuse an object that is gone. -/
def require (memory : Memory) (address : Address) : Except ClientError Unit :=
  if memory.alive address then .ok () else .error .detached

/-- The object under a name. The name of a session stands for its root, also where an object has
the same name. -/
def object? (memory : Memory) (name : String) : Option Node :=
  match Keyed.get? name memory.sessions with
  | some s => some (.container s.root)
  | none => Keyed.get? name memory.objects

/-- Keep a session under a name, in place of the session that had it. -/
def keepSession (memory : Memory) (name : String) (s : Session) : Memory :=
  { memory with sessions := Keyed.insert name s memory.sessions }

/-- Keep an object under a name, in place of the object that had it. -/
def keep (memory : Memory) (name : String) (n : Node) : Memory :=
  { memory with objects := Keyed.insert name n memory.objects }

def keeps (memory : Memory) (name : String) : Bool :=
  Keyed.has name memory.sessions || Keyed.has name memory.objects

def drop (memory : Memory) (name : String) : Memory :=
  { memory with
    sessions := Keyed.erase name memory.sessions
    objects := Keyed.erase name memory.objects }

end Memory

/-! ### Operations of clients -/

structure World (σ : Type) where
  remote : σ
  memory : Memory := {}

/-- An operation of a client. -/
abbrev Client (σ : Type) (α : Type) := ExceptT ClientError (StateM (World σ)) α

namespace Client

variable {σ α : Type}

def consult (f : Memory → Except ClientError α) : Client σ α := fun w => (f w.memory, w)

def remember (f : Memory → Memory) : Client σ Unit := fun w =>
  (.ok (), { w with memory := f w.memory })

def ask (remote : Remote σ) (c : Call) : Client σ c.Answer := fun w =>
  let reply := remote.call c w.remote
  (match reply.1 with
    | .ok answer => .ok answer
    | .error fault => .error (.transport fault),
    { w with remote := reply.2 })

end Client

end SettingsTree
