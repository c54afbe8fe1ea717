import SettingsTree.Session.Memory
import SettingsTree.Text.Quoted

/-! # Descriptions of objects

One line about an object, for people who look for a fault.
-/

namespace SettingsTree

/-- The word for what a container hangs off. -/
def Container.parentWord : Container → String
  | .root .. => "Root"
  | .child .. => "Container"
  | .member .. => "Collection"

def Sync.word : Sync → String
  | uninitialized => "Uninitialized"
  | synced => "Synced"

def truthWord (flag : Bool) : String := if flag then "true" else "false"

/-- The fields of a description between braces, with a hint at what is left out. -/
def described (outer inner : String) (fields : List (String × String)) : String :=
  let shown := fields.map fun field => field.1 ++ ": " ++ field.2
  String.join [outer, "(", inner, " \x7b ", String.intercalate ", " (shown ++ [".."]), " \x7d)"]

def Node.describe (memory : Memory) : Node → String
  | .container c => described "Container" "Container" [
      ("remote_name", Text.quote c.descriptor.remote),
      ("name", match c.memberName? with
        | some name => "Some(" ++ Text.quote name ++ ")"
        | none => "None"),
      ("parent", c.parentWord)]
  | .collection c => described "Collection" "NamedCollection" [
      ("remote_name", Text.quote c.descriptor.remote),
      ("state", (memory.index c.address).sync.word),
      ("cached", Nat.repr (memory.index c.address).members.length)]
  | .leaf l => described "Leaf" "Leaf" [
      ("remote_name", Text.quote l.label.remote),
      ("kind", l.primitive.word)]
  | .command c => described "Command" "Command" [
      ("remote_name", Text.quote c.label.remote),
      ("query", truthWord c.signature.query)]

end SettingsTree
