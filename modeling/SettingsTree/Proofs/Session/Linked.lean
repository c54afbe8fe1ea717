import SettingsTree.Proofs.Session.Registry

/-! # Objects that are linked to the root

An object is rooted if its session and all members above it live; then everything above it lives. It
is linked if its session is kept and each member above it is in the index of its collection. A
linked object is rooted, and it stays linked whatever happens to the indexes of collections below
it. It is anchored if its session and all members above it are kept by callers. An anchored object
is rooted, and it stays anchored whatever happens to indexes.
-/

namespace SettingsTree

namespace Memory

variable {memory : Memory} {owner : Address}

theorem alive_of_held {hop : Hop} (h : hop :: owner ∈ memory.held) :
    memory.alive (hop :: owner) := by
  have hheld : memory.held.contains (hop :: owner) = true := List.contains_iff_mem.2 h
  rw [alive, hheld, Bool.true_or]

theorem alive_child (h : memory.alive owner) (position : Nat) :
    memory.alive (.child position :: owner) := by
  rw [alive, h]
  simp [owns]

/-- Only what stands below a collection depends on its index. -/
theorem ChangedAt.alive {below : Address} {later : Memory} (changed : ChangedAt below memory later)
    {address : Address} (h : address.length ≤ below.length) :
    later.alive address = memory.alive address := by
  induction address with
  | nil => rfl
  | cons hop owner ih =>
    rw [List.length_cons] at h
    have hheld : later.held = memory.held := by
      rw [Memory.held, changed.sessions, changed.objects, Memory.held]
    have hindex : later.index owner = memory.index owner := by
      refine changed.index owner fun heq => ?_
      rw [heq] at h
      omega
    rw [Memory.alive, Memory.alive, hheld, ih (by omega)]
    cases hop <;> simp only [Memory.owns, hindex]

end Memory

namespace Container

def session : Container → Nat
  | root number _ => number
  | child parent _ _ => parent.session
  | member owner _ _ _ _ => owner.session

/-- The session and all members on the way to a container live, this container included. -/
def Rooted (memory : Memory) : Container → Prop
  | root session _ => memory.alive [.session session]
  | child parent _ _ => parent.Rooted memory
  | member owner position d name serial => owner.Rooted memory ∧
    memory.alive (member owner position d name serial).address

/-- The session is kept, and this container and all members above it are in the indexes of their
collections. -/
def Linked (memory : Memory) : Container → Prop
  | root session _ => [.session session] ∈ memory.held
  | child parent _ _ => parent.Linked memory
  | member owner position d name serial => owner.Linked memory ∧
    Keyed.get? name ((Collection.mk owner position d).known memory) =
      some (.member owner position d name serial)

/-- Callers keep the session and all members on the way to a container, this container included. -/
def Anchored (memory : Memory) : Container → Prop
  | root session _ => [.session session] ∈ memory.held
  | child parent _ _ => parent.Anchored memory
  | member owner position d name serial => owner.Anchored memory ∧
    (member owner position d name serial).address ∈ memory.held

variable {c : Container} {memory later : Memory}

theorem Rooted.alive (h : c.Rooted memory) : memory.alive c.address := by
  induction c with
  | root => exact h
  | child parent position d ih => exact Memory.alive_child (ih h) position
  | member => exact h.2

theorem Rooted.attached (h : c.Rooted memory) : c.Attached memory := by
  induction c with
  | root => trivial
  | child parent position d ih => exact ⟨Rooted.alive (c := parent) h, ih h⟩
  | member owner position d name serial ih =>
    exact ⟨Memory.alive_child h.1.alive position, h.1.alive, ih h.1⟩

theorem Attached.of_changedAt {below : Address} (h : c.Attached memory)
    (changed : Memory.ChangedAt below memory later) (hbelow : c.address.length ≤ below.length) :
    c.Attached later := by
  induction c with
  | root => trivial
  | child parent position d ih =>
    rw [address, List.length_cons] at hbelow
    rw [Attached, changed.alive (by omega)]
    exact ⟨h.1, ih h.2 (by omega)⟩
  | member owner position d name serial ih =>
    simp only [address, List.length_cons] at hbelow
    rw [Attached, changed.alive (by simp; omega), changed.alive (by omega)]
    exact ⟨h.1, h.2.1, ih h.2.2 (by omega)⟩

theorem Linked.rooted (h : c.Linked memory) : c.Rooted memory := by
  induction c with
  | root => exact Memory.alive_of_held h
  | child parent position d ih => exact ih h
  | member owner position d name serial ih =>
    have howner := ih h.1
    have howns : memory.owns (.child position :: owner.address) (.member serial) = true := by
      rw [Memory.owns, List.any_eq_true]
      exact ⟨_, Keyed.mem_of_get? h.2, by simp [address]⟩
    refine ⟨howner, ?_⟩
    rw [address, Memory.alive, howns, Memory.alive_child howner.alive]
    simp

/-- A container stays linked when the index of a collection below it changes. -/
theorem Linked.of_changedAt {below : Address} (h : c.Linked memory)
    (changed : Memory.ChangedAt below memory later) (hbelow : c.address.length ≤ below.length) :
    c.Linked later := by
  induction c with
  | root session d =>
    rw [Linked, Memory.held, changed.sessions, changed.objects]
    exact h
  | child parent position d ih =>
    exact ih h (Nat.le_of_succ_le hbelow)
  | member owner position d name serial ih =>
    simp only [address, List.length_cons] at hbelow
    refine ⟨ih h.1 (by omega), ?_⟩
    have hne : (Collection.mk owner position d).address ≠ below := by
      intro heq
      rw [← heq] at hbelow
      simp only [Collection.address, List.length_cons] at hbelow
      omega
    rw [Collection.known, changed.index _ hne]
    exact h.2

theorem Anchored.rooted (h : c.Anchored memory) : c.Rooted memory := by
  induction c with
  | root => exact Memory.alive_of_held h
  | child parent position d ih => exact ih h
  | member owner position d name serial ih => exact ⟨ih h.1, Memory.alive_of_held h.2⟩

theorem Anchored.mono (h : c.Anchored memory) (hle : memory.held ⊆ later.held) :
    c.Anchored later := by
  induction c with
  | root => exact hle h
  | child parent position d ih => exact ih h
  | member owner position d name serial ih => exact ⟨ih h.1, hle h.2⟩

end Container

namespace Node

variable {n : Node} {memory : Memory}

theorem attached_of_rooted (h : n.home.Rooted memory) : n.Attached memory := by
  cases n with
  | container c => exact h.attached
  | collection c => exact ⟨h.alive, h.attached⟩
  | leaf l => exact ⟨h.alive, h.attached⟩
  | command c => exact ⟨h.alive, h.attached⟩

/-- A path can be put together for an object whose container is rooted. -/
theorem path_of_rooted (h : n.home.Rooted memory) : n.path memory = .ok n.place :=
  path_eq_ok_iff.2 ⟨attached_of_rooted h, rfl⟩

end Node

/-- Where a collection has its path, every member of it has, also one that nobody keeps. -/
theorem Collection.path_member {c : Collection} {memory : Memory}
    (attached : (Node.collection c).Attached memory) (name : String) (serial : Nat) :
    (c.member name serial).path memory = .ok (c.memberPlace name) :=
  Container.path_eq_ok_iff.2
    ⟨⟨Memory.alive_child attached.1 c.position, attached.1, attached.2⟩, rfl⟩

namespace Container.Offers

variable {c : Container} {n : Node}

theorem session (h : c.Offers n) : n.home.session = c.session := by
  rcases h.home with heq | ⟨position, d, heq⟩ <;> rw [heq]
  rfl

theorem linked (h : c.Offers n) {memory : Memory} (linked : c.Linked memory) :
    n.home.Linked memory := by
  rcases h.home with heq | ⟨position, d, heq⟩
  · exact heq ▸ linked
  · rw [heq]
    exact linked

theorem anchored (h : c.Offers n) {memory : Memory} (anchored : c.Anchored memory) :
    n.home.Anchored memory := by
  rcases h.home with heq | ⟨position, d, heq⟩
  · exact heq ▸ anchored
  · rw [heq]
    exact anchored

/-- One step leads from a container to what it declares. -/
theorem steps (h : c.Offers n) : n.steps = c.steps ++ [⟨n.descriptor.remote, none⟩] := by
  cases h with
  | leaf hl =>
    obtain ⟨position, d, -, hl⟩ := mem_leaves_iff.1 hl
    obtain ⟨rfl, -⟩ := leafAt?_eq_some hl
    rfl
  | child hn =>
    obtain ⟨position, d, -, rfl⟩ := mem_children_iff.1 hn
    cases d <;> rfl
  | command hk =>
    obtain ⟨position, d, -, hk⟩ := mem_commands_iff.1 hk
    obtain ⟨rfl, -⟩ := commandAt?_eq_some hk
    rfl

theorem owner_of_collection {d : Collection} (h : c.Offers (.collection d)) : d.owner = c := by
  cases h with
  | child hn =>
    obtain ⟨position, d, -, heq⟩ := mem_children_iff.1 hn
    cases d <;> cases heq
    rfl

end Container.Offers

end SettingsTree
