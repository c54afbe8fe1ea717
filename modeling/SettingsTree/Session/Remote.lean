import SettingsTree.Json.Value
import SettingsTree.Path.Check
import SettingsTree.Schema.Basic

/-! # The remote

The settings live in another process. It is any state machine that answers the calls below; an
answer may depend on all earlier calls, and a call may fail.
-/

namespace SettingsTree

/-- What a client asks of the remote. Paths are paths of objects, names are remote names. -/
inductive Call where
  /-- The raw schema of a category, and the name of its root type. -/
  | staticInfo (category : String)
  /-- The remote form of the state at a path. -/
  | getState (path : String)
  | setState (path : String) (state : Json)
  /-- The values that a property of an object currently admits. -/
  | propertyOptions (path property : String)
  | delete (path : String)
  | create (path name : String)
  | memberNames (path : String)
  | execute (owner command : String) (arguments : Keyed Json)

/-- What the remote answers to a call. -/
abbrev Call.Answer : Call → Type
  | staticInfo _ => Json × String
  | getState _ => Json
  | setState .. => Unit
  | propertyOptions .. => List String
  | delete _ => Unit
  | create .. => Unit
  | memberNames _ => List String
  | execute .. => Json

/-- A failure of the transport, which callers see as it is. -/
structure TransportError where
  message : String
  deriving DecidableEq, Repr

structure Remote (σ : Type) where
  call : (c : Call) → σ → Except TransportError c.Answer × σ

/-- A remote that also keeps the calls made to it, last one first. -/
def Remote.recorded {σ : Type} (remote : Remote σ) : Remote (List Call × σ) where
  call c s :=
    let reply := remote.call c s.2
    (reply.1, c :: s.1, reply.2)

/-! ### Faults of a client -/

/-- Why the arguments of a command are refused. -/
inductive ArgumentError where
  | unknown (command name : String)
  | missing (command : String) (names : List String)
  deriving DecidableEq, Repr

def ArgumentError.message : ArgumentError → String
  | unknown command name => s!"{command}: unexpected argument {Text.quote name}"
  | missing command names =>
    s!"{command}: missing required argument(s) " ++ String.intercalate ", " names

/-- Why an operation of a client fails. -/
inductive ClientError where
  | path (fault : PathError)
  | schema (fault : SchemaError)
  | argument (fault : ArgumentError)
  /-- The remote could not be reached. -/
  | transport (fault : TransportError)
  /-- The state for a collection is no object. -/
  | invalidState (path : String)
  /-- An object above this one is gone. -/
  | detached
  deriving DecidableEq, Repr

def ClientError.message : ClientError → String
  | .path fault => fault.message
  | .schema fault => fault.message
  | .argument fault => fault.message
  | .transport fault => fault.message
  | .invalidState place => s!"{place}: expected object state"
  | .detached => "object is no longer attached to a session"

end SettingsTree
