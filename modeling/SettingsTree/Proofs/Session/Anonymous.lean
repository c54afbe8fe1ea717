import SettingsTree.Proofs.Session.Place
import SettingsTree.Session.Action

/-! # Objects without numbers

The numbers of sessions and of members tell apart the objects that stand at one place. Without them,
an object is what stands at a place: its path, its descriptor and all that it declares are the same.
-/

namespace SettingsTree

/-- A container without the numbers on the way to it. -/
def Container.anonymous : Container → Container
  | root _ d => .root 0 d
  | child parent position d => .child parent.anonymous position d
  | member owner position d name _ => .member owner.anonymous position d name 0

def Collection.anonymous (c : Collection) : Collection := { c with owner := c.owner.anonymous }

def Leaf.anonymous (l : Leaf) : Leaf := { l with owner := l.owner.anonymous }

def Command.anonymous (c : Command) : Command := { c with owner := c.owner.anonymous }

def Node.anonymous : Node → Node
  | .container c => .container c.anonymous
  | .collection c => .collection c.anonymous
  | .leaf l => .leaf l.anonymous
  | .command c => .command c.anonymous

/-! ### Places -/

namespace Container

variable (c : Container)

@[simp] theorem steps_anonymous : c.anonymous.steps = c.steps := by
  induction c with
  | root => rfl
  | child parent position d ih => simp only [anonymous, steps, ih]
  | member owner position d name serial ih => simp only [anonymous, steps, ih]

@[simp] theorem place_anonymous : c.anonymous.place = c.place := by
  rw [place, steps_anonymous, place]

@[simp] theorem descriptor_anonymous : c.anonymous.descriptor = c.descriptor := by
  cases c <;> rfl

@[simp] theorem memberName?_anonymous : c.anonymous.memberName? = c.memberName? := by
  cases c <;> rfl

@[simp] theorem members_anonymous : c.anonymous.members = c.members := by
  rw [members, descriptor_anonymous, members]

end Container

namespace Collection

variable (c : Collection)

@[simp] theorem place_anonymous : c.anonymous.place = c.place := by
  simp [place, anonymous]

@[simp] theorem memberPlace_anonymous (name : String) :
    c.anonymous.memberPlace name = c.memberPlace name := by
  simp [memberPlace, anonymous]

@[simp] theorem descriptor_anonymous : c.anonymous.descriptor = c.descriptor := rfl

@[simp] theorem anonymous_member (name : String) (serial : Nat) :
    (c.member name serial).anonymous = c.anonymous.member name 0 := rfl

end Collection

namespace Node

variable (n : Node)

@[simp] theorem place_anonymous : n.anonymous.place = n.place := by
  cases n <;>
    simp [place, steps, anonymous, Collection.anonymous, Leaf.anonymous, Command.anonymous]

@[simp] theorem descriptor_anonymous : n.anonymous.descriptor = n.descriptor := by
  cases n with
  | container c => exact c.descriptor_anonymous
  | collection | leaf | command => rfl

@[simp] theorem kind_anonymous : n.anonymous.kind = n.kind := by
  cases n <;> rfl

@[simp] theorem container?_anonymous :
    n.anonymous.container? = n.container?.map Container.anonymous := by
  cases n <;> rfl

@[simp] theorem collection?_anonymous :
    n.anonymous.collection? = n.collection?.map Collection.anonymous := by
  cases n <;> rfl

@[simp] theorem leaf?_anonymous : n.anonymous.leaf? = n.leaf?.map Leaf.anonymous := by
  cases n <;> rfl

@[simp] theorem command?_anonymous : n.anonymous.command? = n.command?.map Command.anonymous := by
  cases n <;> rfl

end Node

/-! ### Parts of a container -/

namespace Container

variable (c : Container)

theorem leaves_anonymous : c.anonymous.leaves = c.leaves.map Leaf.anonymous := by
  rw [leaves, leaves, members_anonymous, List.map_filterMap]
  congr 1
  funext d
  cases d.1 <;> rfl

theorem children_anonymous : c.anonymous.children = c.children.map Node.anonymous := by
  rw [children, children, members_anonymous, List.map_map]
  congr 1
  funext d
  cases h : d.1 <;> simp only [Function.comp, h] <;> rfl

theorem commands_anonymous : c.anonymous.commands = c.commands.map Command.anonymous := by
  rw [commands, commands, members_anonymous, List.map_filterMap]
  congr 1
  funext d
  cases d.1 <;> rfl

theorem lookup?_anonymous (name : String) :
    c.anonymous.lookup? name = (c.lookup? name).map Node.anonymous := by
  rw [lookup?, lookup?, members_anonymous, leaves_anonymous, children_anonymous, commands_anonymous]
  cases c.members.lookup? name with
  | none => rfl
  | some member =>
    cases member with
    | property =>
      dsimp only
      rw [List.find?_map, Option.map_map, Option.map_map]
      rfl
    | child =>
      dsimp only
      rw [List.find?_map]
      congr 2
      funext n
      simp
    | command =>
      dsimp only
      rw [List.find?_map, Option.map_map, Option.map_map]
      rfl

end Container

end SettingsTree
