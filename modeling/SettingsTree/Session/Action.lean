import SettingsTree.Session.Connect
import SettingsTree.Session.Operation

/-! # Runs of callers

Callers connect, keep sessions and objects under names, and work with what they keep. What a caller
sees of an object is its view; views do not tell which of several objects for one place it is.
-/

namespace SettingsTree

open Client

/-- What a caller sees of an object. -/
structure View where
  kind : Kind
  descriptor : Descriptor
  memberName : Option String
  path : Except ClientError String

def Node.kind : Node → Kind
  | container _ => .container
  | collection _ => .collection
  | leaf _ => .property
  | command _ => .command

def Node.view (memory : Memory) (n : Node) : View :=
  ⟨n.kind, n.descriptor, n.container?.bind Container.memberName?, n.path memory⟩

/-- What a caller does. -/
inductive Action where
  | adopt (name : String) (schema : Compiled)
  /-- Connect as a configuration says, where `files` gives the contents of files. -/
  | connect (name : String) (config : Config) (files : String → Option String)
  | connectWith (name : String) (config : Config) (shipped : Option Compiled)
  | drop (name : String)
  /-- Ask whether two names stand for one object. -/
  | compare (first second : String)
  /-- Look for the object at a path, and keep it. -/
  | resolve (session path : String) (keep : Option String)
  /-- Perform an operation, and keep the object that it gives. -/
  | apply (object : String) (operation : Operation) (keep : Option String)

inductive Outcome where
  /-- Nothing is kept under the name. -/
  | unknown
  /-- The object has no such operation. -/
  | unsuitable
  | failed (fault : ClientError)
  | replied (reply : Reply View)
  | connected (reports : List Fallback) (made : Except ClientError Selected)

namespace Action

variable {σ : Type} (remote : Remote σ)

def keepSession (name : String) (reports : List Fallback) :
    Except ClientError Session × World σ → Outcome × World σ
  | (.ok session, w) =>
    (.connected reports (.ok session.toSelected),
      { w with memory := w.memory.keepSession name session })
  | (.error fault, w) => (.connected reports (.error fault), w)

/-- Show a reply, and then keep its object. -/
def keepObject (name : Option String) :
    Except ClientError (Reply Node) × World σ → Outcome × World σ
  | (.error fault, w) => (.failed fault, w)
  | (.ok reply, w) =>
    (.replied (reply.map (Node.view w.memory)),
      match name, reply with
      | some name, .object n => { w with memory := w.memory.keep name n }
      | _, _ => w)

def perform : Action → StateM (World σ) Outcome
  | .adopt name schema => fun w => keepSession name [] (Session.ofSchema schema .compiled w)
  | .connect name config files => fun w =>
    keepSession name [] (Session.connect remote config files w)
  | .connectWith name config shipped => fun w =>
    let made := Session.connectWith remote config shipped w
    keepSession name made.1.1 (made.1.2, made.2)
  | .drop name => fun w =>
    (.replied (.flag (w.memory.keeps name)), { w with memory := w.memory.drop name })
  | .compare first second => fun w =>
    match w.memory.object? first, w.memory.object? second with
    | some a, some b => (.replied (.flag (a.address = b.address)), w)
    | _, _ => (.unknown, w)
  | .resolve session path name => fun w =>
    match Keyed.get? session w.memory.sessions with
    | none => (.unknown, w)
    | some s => keepObject name ((Reply.object <$> s.resolve remote path) w)
  | .apply object operation name => fun w =>
    match w.memory.object? object with
    | none => (.unknown, w)
    | some n =>
      match n.perform remote operation with
      | none => (.unsuitable, w)
      | some act => keepObject name (act w)

def performAll (actions : List Action) : StateM (World σ) (List Outcome) :=
  actions.mapM (perform remote)

end Action

end SettingsTree
