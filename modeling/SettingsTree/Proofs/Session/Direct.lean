import SettingsTree.Proofs.Session.Place
import SettingsTree.Session.Action

/-! # A client that remembers nothing

This client keeps no index and gives out no numbers. An object is only what stands at a place, so a
member is made anew whenever it is used, and every path is at hand. What the client does is said
here a second time, by calls to the remote alone.
-/

namespace SettingsTree

/-- An operation of a client that remembers nothing. -/
abbrev Direct (σ α : Type) := ExceptT ClientError (StateM σ) α

namespace Direct

variable {σ α : Type} (remote : Remote σ)

def ask (c : Call) : Direct σ c.Answer := fun s =>
  ((remote.call c s).1.mapError .transport, (remote.call c s).2)

/-! ### Settings, commands and containers -/

def readLeaf (l : Leaf) : Direct σ Json := ask remote (.getState (Node.leaf l).place)

def writeLeaf (l : Leaf) (value : Json) : Direct σ Unit :=
  ask remote (.setState (Node.leaf l).place value)

def invoke (c : Command) (keywords : List (String × Json)) : Direct σ Json :=
  let given := Keyed.ofList keywords
  match c.signature.refusal? c.label.localName given with
  | some fault => throw (.argument fault)
  | none => ask remote (.execute c.owner.place c.label.remote
    (c.signature.payload c.owner.place given))

def readContainer (c : Container) : Direct σ Json :=
  return Projection.toLocal c.descriptor (← ask remote (.getState c.place))

def writeContainer (c : Container) (state : Json) : Direct σ Unit :=
  ask remote (.setState c.place (Projection.toRemote c.descriptor state))

def unknown (c : Container) (name : String) : Direct σ α :=
  throw (.path (.unknownMember c.place name))

def mismatch (c : Container) (name : String) (wanted : Wanted) : Direct σ α :=
  throw (.path (.kindMismatch c.place name wanted))

/-- The member of a name, if it is what is wanted. -/
def pick (wanted : Wanted) (select : Node → Option α) (c : Container) (name : String) :
    Direct σ α :=
  match c.lookup? name with
  | none => unknown c name
  | some n =>
    match select n with
    | some found => return found
    | none => mismatch c name wanted

/-! ### Collections -/

def names (c : Collection) : Direct σ (List String) := ask remote (.memberNames c.place)

def entries (c : Collection) : Direct σ (List (String × Container)) :=
  return (← names remote c).map fun name => (name, c.member name 0)

def size (c : Collection) : Direct σ Nat := return (← names remote c).length

def isEmpty (c : Collection) : Direct σ Bool := return (← size remote c) = 0

def contains (c : Collection) (name : String) : Direct σ Bool :=
  return (← names remote c).contains name

def get (c : Collection) (name : String) : Direct σ Container := do
  if ← contains remote c name then return c.member name 0
  else throw (.path (.noSuchObject c.place name))

def create (c : Collection) (name : String) : Direct σ Container := do
  match Path.checkObjectName name with
  | .error fault => throw (.path fault)
  | .ok () =>
    ask remote (.create c.place name)
    return c.member name 0

/-- Write the state of a member, which is created if there is none. -/
def setItem (c : Collection) (name : String) (state : Json) : Direct σ Unit := do
  let member ← if ← contains remote c name then pure (c.member name 0) else create remote c name
  writeContainer remote member state

def readCollection (c : Collection) : Direct σ Json :=
  return Projection.collectionToLocal c.descriptor (← ask remote (.getState c.place))

def writeCollection (c : Collection) (state : Json) : Direct σ Unit :=
  match state with
  | .obj members => members.forM fun entry => setItem remote c entry.1 entry.2
  | _ => throw (.invalidState c.place)

/-! ### Operations -/

/-- Write to the member of a local name. -/
def writeMember (c : Container) (name : String) (value : Json) : Direct σ Unit :=
  match c.lookup? name with
  | some (.leaf l) => writeLeaf remote l value
  | some (.container d) => writeContainer remote d value
  | some (.collection d) => writeCollection remote d value
  | some (.command _) => mismatch c name .propertyOrChild
  | none => unknown c name

def onContainer (c : Container) : Operation → Option (Direct σ (Reply Node))
  | .typePath => some (pure (.text (Path.typePath c.place)))
  | .getState => some (.state <$> readContainer remote c)
  | .setState state => some ((fun _ => .done) <$> writeContainer remote c state)
  | .setAttribute name state => some ((fun _ => .done) <$> writeMember remote c name state)
  | .getProperty name => some (.state <$> do readLeaf remote (← pick .property Node.leaf? c name))
  | .setProperty name state => some ((fun _ => .done) <$> do
    writeLeaf remote (← pick .property Node.leaf? c name) state)
  | .lookup name => some (pure (((c.lookup? name).map .object).getD .nothing))
  | .child name => some ((fun found => .object (.container found)) <$>
    pick .container Node.container? c name)
  | .collection name => some ((fun found => .object (.collection found)) <$>
    pick .collection Node.collection? c name)
  | .property name => some ((fun found => .object (.leaf found)) <$>
    pick .property Node.leaf? c name)
  | .command name => some ((fun found => .object (.command found)) <$>
    pick .command Node.command? c name)
  | _ => none

def onCollection (c : Collection) : Operation → Option (Direct σ (Reply Node))
  | .typePath => some (pure (.text (Path.typePath c.place)))
  | .owner => some (pure (.object (.container c.owner)))
  | .getState => some (.state <$> readCollection remote c)
  | .setState state => some ((fun _ => .done) <$> writeCollection remote c state)
  | .memberPath name => some (pure (.text (c.memberPlace name)))
  | .names => some (.names <$> names remote c)
  | .entries => some ((fun members => .entries (members.map fun entry =>
    (entry.1, .container entry.2))) <$> entries remote c)
  | .size => some (.size <$> size remote c)
  | .isEmpty => some (.flag <$> isEmpty remote c)
  | .contains name => some (.flag <$> contains remote c name)
  | .get name => some ((fun member => .object (.container member)) <$> get remote c name)
  | .create name => some ((fun member => .object (.container member)) <$> create remote c name)
  | .setItem name state => some ((fun _ => .done) <$> setItem remote c name state)
  | .delete name => some ((fun _ => .done) <$> ask remote (.delete (c.memberPlace name)))
  | _ => none

def onLeaf (l : Leaf) : Operation → Option (Direct σ (Reply Node))
  | .owner => some (pure (.object (.container l.owner)))
  | .getState => some (.state <$> readLeaf remote l)
  | .setState value => some ((fun _ => .done) <$> writeLeaf remote l value)
  | .allowedValues => some (.names <$> ask remote (.propertyOptions l.owner.place l.label.remote))
  | _ => none

def onCommand (c : Command) : Operation → Option (Direct σ (Reply Node))
  | .owner => some (pure (.object (.container c.owner)))
  | .invoke keywords => some (.state <$> invoke remote c keywords)
  | _ => none

def perform (n : Node) : Operation → Option (Direct σ (Reply Node))
  | .self => some (pure (.object n))
  | .path => some (pure (.text n.place))
  | operation =>
    match n with
    | .container c => onContainer remote c operation
    | .collection c => onCollection remote c operation
    | .leaf l => onLeaf remote l operation
    | .command c => onCommand remote c operation

end Direct

end SettingsTree
