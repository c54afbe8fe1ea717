import SettingsTree.Json.Value
import SettingsTree.Path.Step
import SettingsTree.Schema.Descriptor

/-! # Local and remote form of states

In the remote form of a state, values stand under remote names, and the members of a collection
stand beside the other values of the object that has the collection, under keys of a type and a
member name. In the local form values stand under local names, and the members of a collection stand
in an object of their own under its local name. What comes out is in the order of the descriptors;
what is absent stays absent, and keys that the schema does not know are dropped.
-/

namespace SettingsTree

def memberKey (type name : String) : String := (Step.member type name).render

/-- The type and the member name in a remote key, separated by the first colon. -/
def splitMemberKey (key : String) : Option (String × String) := Text.cutString ':' key

namespace Projection

def memberOf? (type key : String) : Option String :=
  (splitMemberKey key).bind fun parts => if parts.1 = type then some parts.2 else none

/-- Copy the values of properties, from the keys `source` to the keys `target`. -/
def copyProperties (source target : Descriptor → String) (state : Keyed Json) :
    List Descriptor → Keyed Json → Keyed Json
  | [], out => out
  | p :: rest, out =>
    copyProperties source target state rest <|
      match Keyed.get? (source p) state with
      | some value => Keyed.insert (target p) value out
      | none => out

/-- The members of a collection of type `type` among the entries of a remote state. -/
def gather (type : String) (project : Json → Json) (state : Keyed Json) : Keyed Json :=
  Keyed.ofList (state.filterMap fun entry =>
    (memberOf? type entry.1).map fun name => (name, project entry.2))

/-- Write the members of a collection of type `type` into a remote state. -/
def scatter (type : String) (project : Json → Json) (members out : Keyed Json) : Keyed Json :=
  Keyed.insertAll out (members.map fun entry => (memberKey type entry.1, project entry.2))

/-- Write a value under a name, unless it is an object without members. -/
def insertNonempty (name : String) (members out : Keyed Json) : Keyed Json :=
  if members.isEmpty then out else Keyed.insert name (.obj members) out

mutual
/-- The local form of a remote state. Values that are no objects stay as they are. -/
def toLocal : Descriptor → Json → Json
  | .container _ properties children _, .obj state =>
    .obj (childrenToLocal children state
      (copyProperties Descriptor.remote Descriptor.localName state properties []))
  | .collection label template, .obj state =>
    .obj (insertNonempty label.localName (gather template.remote (toLocal template) state) [])
  | _, value => value
def childrenToLocal : List Descriptor → Keyed Json → Keyed Json → Keyed Json
  | [], _, out => out
  | .collection label template :: rest, state, out =>
    childrenToLocal rest state
      (insertNonempty label.localName (gather template.remote (toLocal template) state) out)
  | child :: rest, state, out =>
    childrenToLocal rest state <|
      match Keyed.get? child.remote state with
      | some value => Keyed.insert child.localName (toLocal child value) out
      | none => out
end

/-- The members that a local state has under the local name of a collection. -/
def membersUnder (name : String) (state : Keyed Json) : Keyed Json :=
  ((Keyed.get? name state).bind Json.members?).getD []

mutual
/-- The remote form of a local state. Values that are no objects stay as they are, except that what
stands under the name of a collection must be an object to be kept. -/
def toRemote : Descriptor → Json → Json
  | .container _ properties children _, .obj state =>
    .obj (childrenToRemote children state
      (copyProperties Descriptor.localName Descriptor.remote state properties []))
  | .collection label template, .obj state =>
    .obj (scatter template.remote (toRemote template) (membersUnder label.localName state) [])
  | _, value => value
def childrenToRemote : List Descriptor → Keyed Json → Keyed Json → Keyed Json
  | [], _, out => out
  | .collection label template :: rest, state, out =>
    childrenToRemote rest state
      (scatter template.remote (toRemote template) (membersUnder label.localName state) out)
  | child :: rest, state, out =>
    childrenToRemote rest state <|
      match Keyed.get? child.localName state with
      | some value => Keyed.insert child.remote (toRemote child value) out
      | none => out
end

/-- The local form of what the remote answers at the path of a collection: one value for each
member, under its name. The remote may give the bare name or the type with it. -/
def collectionToLocal : Descriptor → Json → Json
  | .collection label template, .obj state =>
    .obj (Keyed.ofList (state.map fun entry =>
      ((memberOf? label.remote entry.1).getD entry.1, toLocal template entry.2)))
  | _, value => value

def collectionToRemote : Descriptor → Json → Json
  | .collection _ template, .obj state =>
    .obj (scatter template.remote (toRemote template) state [])
  | _, value => value

end Projection

end SettingsTree
