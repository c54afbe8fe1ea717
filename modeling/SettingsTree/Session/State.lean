import SettingsTree.Session.Collection
import SettingsTree.Session.Lookup

/-! # States of containers and settings, and commands

Values of primitive settings pass unchanged in both directions.

The arguments of a command are given by local name and checked before anything is sent. They are
sent in the order of their declaration, under their remote names, and after them the path of the
object if the command wants it.
-/

namespace SettingsTree

open Client

variable {σ : Type} (remote : Remote σ)

namespace Leaf

def getState (l : Leaf) : Client σ Json := do
  let path ← consult (l.path ·)
  ask remote (.getState path)

def setState (l : Leaf) (value : Json) : Client σ Unit := do
  let path ← consult (l.path ·)
  ask remote (.setState path value)

/-- The values that the remote currently admits for a setting. -/
def allowedValues (l : Leaf) : Client σ (List String) := do
  let _ ← consult (·.require l.owner.address)
  let path ← consult l.owner.path
  ask remote (.propertyOptions path l.label.remote)

end Leaf

namespace Container

def getState (c : Container) : Client σ Json := do
  let path ← consult c.path
  let state ← ask remote (.getState path)
  return Projection.toLocal c.descriptor state

/-- Write to the member of a local name. A command cannot be written to. -/
def setAttribute (c : Container) (name : String) (value : Json) : Client σ Unit :=
  match c.lookup? name with
  | some (.leaf l) => l.setState remote value
  | some (.container d) => d.setState remote value
  | some (.collection d) => d.setState remote value
  | some (.command _) => consult (c.mismatch · name .propertyOrChild)
  | none => consult (c.unknown · name)

def getPropertyState (c : Container) (name : String) : Client σ Json := do
  (← consult (c.propertyNamed · name)).getState remote

def setPropertyState (c : Container) (name : String) (value : Json) : Client σ Unit := do
  (← consult (c.propertyNamed · name)).setState remote value

end Container

/-! ### Commands -/

namespace Signature

/-- Why keyword arguments are refused, if they are. -/
def refusal? (signature : Signature) (command : String) (given : Keyed Json) :
    Option ArgumentError :=
  match (Keyed.names given).find? fun name => (signature.argument? name).isNone with
  | some name => some (.unknown command name)
  | none =>
    match signature.essentialNames.filter fun name => !Keyed.has name given with
    | [] => none
    | names => some (.missing command names)

/-- The arguments that are sent for keyword arguments. A keyword serves one declaration. -/
def sentArguments : List Descriptor → (given sent : Keyed Json) → Keyed Json
  | [], _, sent => sent
  | argument :: rest, given, sent =>
    match Keyed.get? argument.localName given with
    | some value =>
      sentArguments rest (Keyed.erase argument.localName given)
        (Keyed.insert argument.remote value sent)
    | none => sentArguments rest given sent

/-- All that is sent when the command is invoked on the object at `owner`. -/
def payload (signature : Signature) (owner : String) (given : Keyed Json) : Keyed Json :=
  let sent := sentArguments signature.arguments given []
  match signature.pathArgument with
  | some name => Keyed.insert name (.str owner) sent
  | none => sent

end Signature

/-- Invoke a command. Of several values for one keyword the last one counts. -/
def Command.invoke {σ : Type} (remote : Remote σ) (c : Command) (keywords : List (String × Json)) :
    Client σ Json := do
  let given := Keyed.ofList keywords
  match c.signature.refusal? c.label.localName given with
  | some fault => throw (.argument fault)
  | none =>
    let _ ← consult (·.require c.owner.address)
    let owner ← consult c.owner.path
    ask remote (.execute owner c.label.remote (c.signature.payload owner given))

end SettingsTree
