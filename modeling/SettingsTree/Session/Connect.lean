import SettingsTree.Config
import SettingsTree.Schema.Persisted
import SettingsTree.Session.Collection
import SettingsTree.Session.Lookup

/-! # Sessions

A session asks the remote for its schema, compiles it or uses a shipped one, and offers the root of
the tree of objects.
-/

namespace SettingsTree

open Client

namespace Session

variable {σ : Type} (remote : Remote σ)

/-- A session over a given schema. It is the caller who keeps it. -/
def ofSchema (schema : Compiled) (origin : Origin) : Client σ Session := do
  let memory ← consult .ok
  let session : Session := ⟨⟨schema, origin⟩, memory.fresh⟩
  remember fun memory => { memory with fresh := memory.fresh + 1 }
  return session

/-- Connect with a shipped schema or without one. The reports about the shipped schema come also
with a failure. -/
def connectWith (config : Config) (shipped : Option Compiled) :
    StateM (World σ) (List Fallback × Except ClientError Session) := fun w =>
  match ask remote (.staticInfo config.schemaCategory) w with
  | (.error fault, w) => (([], .error fault), w)
  | (.ok (raw, rootType), w) =>
    match select raw rootType shipped config.options with
    | (reports, .error fault) => ((reports, .error (.schema fault)), w)
    | (reports, .ok selected) =>
      let made := ofSchema (σ := σ) selected.schema selected.origin w
      ((reports, made.1), made.2)

/-- The shipped schema that a configuration names, when `files` gives the contents of files. -/
def shippedSchema (config : Config) (files : String → Option String) :
    Except SchemaError (Option Compiled) :=
  match config.prebuiltSchema with
  | none => .ok none
  | some file =>
    match files file with
    | none => .error .unavailable
    | some text => (Compiled.ofText text).map some

/-- Connect as a configuration says. A schema file that cannot be used is a fault; one that does not
serve is passed over. -/
def connect (config : Config) (files : String → Option String) : Client σ Session :=
  match shippedSchema config files with
  | .error fault => throw (.schema fault)
  | .ok shipped => fun w =>
    let made := connectWith remote config shipped w
    (made.1.2, made.2)

def memberByRemote? (c : Container) (name : String) : Option Node :=
  match c.leaves.find? fun l => l.label.remote = name with
  | some l => some (.leaf l)
  | none => (c.commands.find? fun k => k.label.remote = name).map .command

def childByRemote? (c : Container) (name : String) : Option Node :=
  c.children.find? fun n => n.descriptor.remote = name

/-- The object that one step leads to. A step with a member name needs a collection, and the
remote must have the member. -/
def follow (path : String) (n : Node) (step : Step) : Client σ Node :=
  let missing : Client σ Node := throw (.path (.noSuchComponent path step.render))
  match n with
  | .container c =>
    match childByRemote? c step.type, step.name with
    | some (.collection d), some name => return .container (← d.get remote name)
    | some _, some _ => missing
    | some child, none => return child
    | none, some _ => missing
    | none, none =>
      match memberByRemote? c step.type with
      | some member => return member
      | none => missing
  | _ => missing

def resolve (s : Session) (path : String) : Client σ Node := do
  match Path.check path with
  | .error fault => throw (.path fault)
  | .ok () =>
    match Path.parse path with
    | [] => throw (.path (.malformed path .emptyPath))
    | first :: rest =>
      if first.name.isSome || first.type ≠ s.schema.root.remote then
        throw (.path (.noSuchComponent path first.render))
      else rest.foldlM (follow remote path) (.container s.root)

end Session

end SettingsTree
