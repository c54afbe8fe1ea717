import SettingsTree.Proofs.Path.Written
import SettingsTree.Proofs.Pointwise
import SettingsTree.Session.Lookup

/-! # Where objects stand

An object has its steps from the root, whether or not the objects above it live. Its path succeeds
exactly when they do, and is then the written form of these steps.
-/

namespace SettingsTree

/-! ### Steps -/

def Container.steps : Container → Path
  | root _ d => [⟨d.remote, none⟩]
  | child parent _ d => parent.steps ++ [⟨d.remote, none⟩]
  | member owner _ d name _ => owner.steps ++ [.member d.remote name]

/-- The path of a container whose owners live. -/
def Container.place (c : Container) : String := Path.render c.steps

def Collection.place (c : Collection) : String :=
  Path.render (c.owner.steps ++ [⟨c.descriptor.remote, none⟩])

def Collection.memberPlace (c : Collection) (name : String) : String :=
  Path.render (c.owner.steps ++ [.member c.descriptor.remote name])

def Node.steps : Node → Path
  | .container c => c.steps
  | .collection c => c.owner.steps ++ [⟨c.descriptor.remote, none⟩]
  | .leaf l => l.owner.steps ++ [⟨l.label.remote, none⟩]
  | .command c => c.owner.steps ++ [⟨c.label.remote, none⟩]

def Node.place (n : Node) : String := Path.render n.steps

theorem Collection.memberPlace_injective (c : Collection) :
    Function.Injective c.memberPlace := by
  intro a b h
  have hlist := congrArg String.toList h
  simp only [memberPlace, Path.toList_render, Path.chars, List.flatMap_append,
    List.append_cancel_left_eq, List.flatMap_cons, List.flatMap_nil, List.append_nil, Step.member,
    Step.chars, List.cons.injEq, true_and] at hlist
  exact String.toList_injective hlist

/-! ### Owners that live -/

/-- All objects above a container live. -/
def Container.Attached (memory : Memory) : Container → Prop
  | root .. => True
  | child parent _ _ => memory.alive parent.address ∧ parent.Attached memory
  | member owner position _ _ _ => memory.alive (.child position :: owner.address) ∧
    memory.alive owner.address ∧ owner.Attached memory

def Node.Attached (memory : Memory) : Node → Prop
  | .container c => c.Attached memory
  | .collection c => memory.alive c.owner.address ∧ c.owner.Attached memory
  | .leaf l => memory.alive l.owner.address ∧ l.owner.Attached memory
  | .command c => memory.alive c.owner.address ∧ c.owner.Attached memory

variable {memory : Memory}

theorem Memory.require_eq_ok_iff {address : Address} {done : Unit} :
    memory.require address = .ok done ↔ memory.alive address := by
  unfold require
  split <;> simp_all

/-- A path that is put together from that of a living owner. -/
theorem joined_eq_ok_iff {owner : Container} {step : Step} {path : String}
    (ih : ∀ front, owner.path memory = .ok front ↔ owner.Attached memory ∧ front = owner.place) :
    (do memory.require owner.address
        return Path.join (← owner.path memory) step) = Except.ok path ↔
      (memory.alive owner.address ∧ owner.Attached memory) ∧
        path = Path.render (owner.steps ++ [step]) := by
  simp only [bind_eq_ok_iff, Memory.require_eq_ok_iff, ih, pure_eq_ok_iff]
  constructor
  · rintro ⟨_, halive, _, ⟨hattached, rfl⟩, rfl⟩
    exact ⟨⟨halive, hattached⟩, Path.join_render _ _⟩
  · rintro ⟨⟨halive, hattached⟩, rfl⟩
    exact ⟨(), halive, _, ⟨hattached, rfl⟩, Path.join_render _ _⟩

theorem Container.path_eq_ok_iff {c : Container} {path : String} :
    c.path memory = .ok path ↔ c.Attached memory ∧ path = c.place := by
  induction c generalizing path with
  | root session d => simp [Container.path, Attached, place, steps, eq_comm]
  | child parent position d ih => exact joined_eq_ok_iff fun _ => ih
  | member owner position d name serial ih =>
    rw [Container.path, bind_eq_ok_iff]
    simp only [Memory.require_eq_ok_iff, joined_eq_ok_iff fun _ => ih]
    constructor
    · rintro ⟨_, hcollection, ⟨halive, hattached⟩, rfl⟩
      exact ⟨⟨hcollection, halive, hattached⟩, rfl⟩
    · rintro ⟨⟨hcollection, halive, hattached⟩, rfl⟩
      exact ⟨(), hcollection, ⟨halive, hattached⟩, rfl⟩

/-- A path that can be put together is where the object stands. -/
theorem Node.path_eq_ok_iff {n : Node} {path : String} :
    n.path memory = .ok path ↔ n.Attached memory ∧ path = n.place := by
  cases n with
  | container c => exact Container.path_eq_ok_iff
  | collection c => exact joined_eq_ok_iff fun _ => Container.path_eq_ok_iff
  | leaf l => exact joined_eq_ok_iff fun _ => Container.path_eq_ok_iff
  | command c => exact joined_eq_ok_iff fun _ => Container.path_eq_ok_iff

theorem Collection.path_eq_ok_iff {c : Collection} {path : String} :
    c.path memory = .ok path ↔ (Node.collection c).Attached memory ∧ path = c.place :=
  joined_eq_ok_iff fun _ => Container.path_eq_ok_iff

theorem Collection.memberPath_eq_ok_iff {c : Collection} {name path : String} :
    c.memberPath memory name = .ok path ↔
      (Node.collection c).Attached memory ∧ path = c.memberPlace name :=
  joined_eq_ok_iff fun _ => Container.path_eq_ok_iff

end SettingsTree
