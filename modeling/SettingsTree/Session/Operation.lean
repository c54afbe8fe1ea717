import SettingsTree.Session.State

/-! # Operations on objects

Everything that a caller does with an object of a session, as data. Which operations an object has
depends on its kind only.
-/

namespace SettingsTree

open Client

/-- What a caller does with an object. -/
inductive Operation where
  | self
  | path
  | typePath
  /-- Take the container that the object belongs to. -/
  | owner
  | getState
  | setState (state : Json)
  | setAttribute (name : String) (state : Json)
  | getProperty (name : String)
  | setProperty (name : String) (state : Json)
  | lookup (name : String)
  | child (name : String)
  | collection (name : String)
  | property (name : String)
  | command (name : String)
  | memberPath (name : String)
  | names
  | entries
  | size
  | isEmpty
  | contains (name : String)
  | get (name : String)
  | create (name : String)
  | setItem (name : String) (state : Json)
  | delete (name : String)
  | allowedValues
  | invoke (keywords : List (String × Json))

/-- What an operation gives, where objects are `ν`. -/
inductive Reply (ν : Type) where
  | done
  /-- A look-up found nothing. -/
  | nothing
  | text (value : String)
  | state (value : Json)
  | names (names : List String)
  | size (value : Nat)
  | flag (value : Bool)
  | object (value : ν)
  | entries (members : List (String × ν))

def Reply.map {ν μ : Type} (f : ν → μ) : Reply ν → Reply μ
  | done => done
  | nothing => nothing
  | text value => text value
  | state value => state value
  | names value => names value
  | size value => size value
  | flag value => flag value
  | object value => object (f value)
  | entries members => entries (members.map fun entry => (entry.1, f entry.2))

variable {σ : Type} (remote : Remote σ)

/-- Take the container that an object belongs to. -/
def takeOwner (owner : Container) : Client σ (Reply Node) :=
  consult fun memory => (memory.require owner.address).map fun _ => .object (.container owner)

def Container.perform (c : Container) : Operation → Option (Client σ (Reply Node))
  | .typePath => some (consult fun memory => (c.typePath memory).map .text)
  | .getState => some (.state <$> c.getState remote)
  | .setState state => some ((fun _ => .done) <$> c.setState remote state)
  | .setAttribute name state => some ((fun _ => .done) <$> c.setAttribute remote name state)
  | .getProperty name => some (.state <$> c.getPropertyState remote name)
  | .setProperty name state => some ((fun _ => .done) <$> c.setPropertyState remote name state)
  | .lookup name => some (pure (((c.lookup? name).map .object).getD .nothing))
  | .child name => some (consult fun memory =>
    (c.childNamed memory name).map fun found => .object (.container found))
  | .collection name => some (consult fun memory =>
    (c.collectionNamed memory name).map fun found => .object (.collection found))
  | .property name => some (consult fun memory =>
    (c.propertyNamed memory name).map fun found => .object (.leaf found))
  | .command name => some (consult fun memory =>
    (c.commandNamed memory name).map fun found => .object (.command found))
  | _ => none

def Collection.perform (c : Collection) : Operation → Option (Client σ (Reply Node))
  | .typePath => some (consult fun memory => (c.typePath memory).map .text)
  | .owner => some (takeOwner c.owner)
  | .getState => some (.state <$> c.getState remote)
  | .setState state => some ((fun _ => .done) <$> c.setState remote state)
  | .memberPath name => some (consult fun memory => (c.memberPath memory name).map .text)
  | .names => some (.names <$> c.refresh remote)
  | .entries => some ((fun members => .entries (members.map fun entry =>
    (entry.1, .container entry.2))) <$> c.entries remote)
  | .size => some (.size <$> c.size remote)
  | .isEmpty => some (.flag <$> c.isEmpty remote)
  | .contains name => some (.flag <$> c.contains remote name)
  | .get name => some ((fun member => .object (.container member)) <$> c.get remote name)
  | .create name => some ((fun member => .object (.container member)) <$> c.create remote name)
  | .setItem name state => some ((fun _ => .done) <$> c.setItem remote name state)
  | .delete name => some ((fun _ => .done) <$> c.delete remote name)
  | _ => none

def Leaf.perform (l : Leaf) : Operation → Option (Client σ (Reply Node))
  | .owner => some (takeOwner l.owner)
  | .getState => some (.state <$> l.getState remote)
  | .setState value => some ((fun _ => .done) <$> l.setState remote value)
  | .allowedValues => some (.names <$> l.allowedValues remote)
  | _ => none

def Command.perform (c : Command) : Operation → Option (Client σ (Reply Node))
  | .owner => some (takeOwner c.owner)
  | .invoke keywords => some (.state <$> c.invoke remote keywords)
  | _ => none

def Node.perform (n : Node) : Operation → Option (Client σ (Reply Node))
  | .self => some (pure (.object n))
  | .path => some (consult fun memory => (n.path memory).map .text)
  | operation =>
    match n with
    | .container c => c.perform remote operation
    | .collection c => c.perform remote operation
    | .leaf l => l.perform remote operation
    | .command c => c.perform remote operation

end SettingsTree
