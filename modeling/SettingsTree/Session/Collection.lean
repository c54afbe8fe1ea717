import SettingsTree.Path.Check
import SettingsTree.Projection.Keys
import SettingsTree.Session.Lookup

/-! # Operations of collections

Every operation that depends on which members there are asks the remote first. The answer drops
members from the index that the remote no longer has; a member enters the index when it is first
used, and keeps its identity as long as it stays there.
-/

namespace SettingsTree

open Client

variable {σ : Type} (remote : Remote σ)

/-- Write the state of a container. What is not mentioned is left alone. -/
def Container.setState (c : Container) (state : Json) : Client σ Unit := do
  let path ← consult c.path
  ask remote (.setState path (Projection.toRemote c.descriptor state))

namespace Collection

def changeIndex (c : Collection) (f : Index → Index) : Client σ Unit :=
  remember fun memory => memory.setIndex c.address (f (memory.index c.address))

/-- The names of the members, in the order in which the remote has them. -/
def refresh (c : Collection) : Client σ (List String) := do
  let path ← consult (c.path ·)
  let names ← ask remote (.memberNames path)
  c.changeIndex fun index => ⟨.synced, index.members.filter fun entry => names.contains entry.1⟩
  return names

/-- The object for the member of a name: the one in the index, or a new one. -/
def cached (c : Collection) (name : String) : Client σ Container := do
  let memory ← consult .ok
  match Keyed.get? name (memory.index c.address).members with
  | some member => return member
  | none =>
    let member := c.member name memory.fresh
    remember fun memory => { memory with fresh := memory.fresh + 1 }
    c.changeIndex fun index => { index with members := Keyed.insert name member index.members }
    return member

def entries (c : Collection) : Client σ (List (String × Container)) := do
  (← c.refresh remote).mapM fun name => return (name, ← c.cached name)

def size (c : Collection) : Client σ Nat := return (← c.refresh remote).length

def isEmpty (c : Collection) : Client σ Bool := return (← c.size remote) = 0

def contains (c : Collection) (name : String) : Client σ Bool :=
  return (← c.refresh remote).contains name

def get (c : Collection) (name : String) : Client σ Container := do
  if ← c.contains remote name then c.cached name
  else throw (.path (.noSuchObject (← consult (c.path ·)) name))

def create (c : Collection) (name : String) : Client σ Container := do
  match Path.checkObjectName name with
  | .error fault => throw (.path fault)
  | .ok () =>
    let path ← consult (c.path ·)
    ask remote (.create path name)
    c.cached name

/-- Write the state of a member, which is created if there is none. -/
def setItem (c : Collection) (name : String) (state : Json) : Client σ Unit := do
  let member ← if ← c.contains remote name then c.cached name else c.create remote name
  member.setState remote state

def delete (c : Collection) (name : String) : Client σ Unit := do
  let path ← consult (c.memberPath · name)
  ask remote (.delete path)
  c.changeIndex fun index => { index with members := Keyed.erase name index.members }

/-- The states of all members, each under its name. -/
def getState (c : Collection) : Client σ Json := do
  let path ← consult (c.path ·)
  let state ← ask remote (.getState path)
  return Projection.collectionToLocal c.descriptor state

/-- Write the states of members. What is not mentioned is left alone. -/
def setState (c : Collection) (state : Json) : Client σ Unit := do
  match state with
  | .obj members => members.forM fun entry => c.setItem remote entry.1 entry.2
  | _ => throw (.invalidState (← consult (c.path ·)))

end Collection

end SettingsTree
