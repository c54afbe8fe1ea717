import SettingsTree.Proofs.Session.Trace

/-! # Which objects there are

A number of a session or of a member is given out only once. A registry says what each number stands
for, so that an object can be told from its address alone. In sound memory, everything that is kept
and everything in an index is as a registry has it.
-/

namespace SettingsTree

/-! ### The parts of a container -/

namespace Container

variable {c : Container}

theorem mem_children_iff {n : Node} : n ∈ c.children ↔
    ∃ position d, c.members.children[position]? = some d ∧ n = c.childAt position d := by
  simp only [children, List.mem_map, Prod.exists, List.mem_zipIdx_iff_getElem?]
  rw [exists_comm]
  simp only [eq_comm]

theorem mem_leaves_iff {l : Leaf} : l ∈ c.leaves ↔
    ∃ position d, c.members.properties[position]? = some d ∧ c.leafAt? position d = some l := by
  simp only [leaves, List.mem_filterMap, Prod.exists, List.mem_zipIdx_iff_getElem?]
  exact exists_comm

theorem mem_commands_iff {k : Command} : k ∈ c.commands ↔
    ∃ position d, c.members.commands[position]? = some d ∧ c.commandAt? position d = some k := by
  simp only [commands, List.mem_filterMap, Prod.exists, List.mem_zipIdx_iff_getElem?]
  exact exists_comm

theorem leafAt?_eq_some {position : Nat} {d : Descriptor} {l : Leaf}
    (h : c.leafAt? position d = some l) : l.owner = c ∧ l.descriptor = d := by
  cases d <;> cases h
  exact ⟨rfl, rfl⟩

theorem commandAt?_eq_some {position : Nat} {d : Descriptor} {k : Command}
    (h : c.commandAt? position d = some k) : k.owner = c ∧ k.descriptor = d := by
  cases d <;> cases h
  exact ⟨rfl, rfl⟩

@[simp] theorem descriptor_childAt (c : Container) (position : Nat) (d : Descriptor) :
    (c.childAt position d).descriptor = d := by
  cases d <;> rfl

/-- An object that a container declares. -/
inductive Offers (c : Container) : Node → Prop
  | leaf {l : Leaf} (h : l ∈ c.leaves) : Offers c (.leaf l)
  | child {n : Node} (h : n ∈ c.children) : Offers c n
  | command {k : Command} (h : k ∈ c.commands) : Offers c (.command k)

theorem offers_of_lookup? {name : String} {n : Node} (h : c.lookup? name = some n) :
    c.Offers n := by
  unfold lookup? at h
  split at h
  · cases h
  · obtain ⟨l, hl, rfl⟩ := Option.map_eq_some_iff.1 h
    exact .leaf (List.mem_of_find?_eq_some hl)
  · exact .child (List.mem_of_find?_eq_some h)
  · obtain ⟨k, hk, rfl⟩ := Option.map_eq_some_iff.1 h
    exact .command (List.mem_of_find?_eq_some hk)

end Container

namespace Node

/-- The container that an object belongs to; for a container, it is the container itself. -/
def home : Node → Container
  | .container c => c
  | .collection c => c.owner
  | .leaf l => l.owner
  | .command c => c.owner

variable {n : Node}

theorem eq_of_container? {c : Container} (h : n.container? = some c) : n = .container c := by
  cases n <;> simp_all [container?]

theorem eq_of_collection? {c : Collection} (h : n.collection? = some c) : n = .collection c := by
  cases n <;> simp_all [collection?]

theorem eq_of_leaf? {l : Leaf} (h : n.leaf? = some l) : n = .leaf l := by
  cases n <;> simp_all [leaf?]

theorem eq_of_command? {c : Command} (h : n.command? = some c) : n = .command c := by
  cases n <;> simp_all [command?]

end Node

/-- A container in the tree of a container is a child of it; anything else belongs to it. -/
theorem Container.Offers.home {c : Container} {n : Node} (h : c.Offers n) :
    n.home = c ∨ ∃ position d, n.home = .child c position d := by
  cases h with
  | leaf hl =>
    obtain ⟨position, d, -, hl⟩ := Container.mem_leaves_iff.1 hl
    exact Or.inl (Container.leafAt?_eq_some hl).1
  | child hn =>
    obtain ⟨position, d, -, rfl⟩ := Container.mem_children_iff.1 hn
    cases d <;> simp [Container.childAt, Node.home]
  | command hk =>
    obtain ⟨position, d, -, hk⟩ := Container.mem_commands_iff.1 hk
    exact Or.inl (Container.commandAt?_eq_some hk).1

theorem Container.address_ne_nil (c : Container) : c.address ≠ [] := by
  cases c <;> simp [address]

theorem Container.Offers.exists_address {c : Container} {n : Node} (h : c.Offers n) :
    ∃ hop, n.address = hop :: c.address := by
  cases h with
  | leaf hl =>
    obtain ⟨position, d, -, hl⟩ := mem_leaves_iff.1 hl
    obtain ⟨rfl, -⟩ := leafAt?_eq_some hl
    exact ⟨_, rfl⟩
  | child hn =>
    obtain ⟨position, d, -, rfl⟩ := mem_children_iff.1 hn
    cases d <;> exact ⟨_, rfl⟩
  | command hk =>
    obtain ⟨position, d, -, hk⟩ := mem_commands_iff.1 hk
    obtain ⟨rfl, -⟩ := commandAt?_eq_some hk
    exact ⟨_, rfl⟩

/-- An object that is not the root of a session. -/
def Node.Inner (n : Node) : Prop := ∀ number, n.address ≠ [.session number]

theorem Container.Offers.inner {c : Container} {n : Node} (h : c.Offers n) : n.Inner := by
  obtain ⟨hop, heq⟩ := h.exists_address
  intro number hroot
  rw [heq] at hroot
  exact c.address_ne_nil (List.cons.inj hroot).2

theorem Collection.inner_member (c : Collection) (name : String) (serial : Nat) :
    (Node.container (c.member name serial)).Inner := by
  intro number
  simp [Node.address, member, Container.address]

/-! ### Registries -/

/-- What the numbers of sessions and of members stand for. -/
structure Registry where
  root : Nat → Descriptor
  name : Nat → String

/-- The same is said of all numbers below a bound. -/
def Registry.Agree (bound : Nat) (reg later : Registry) : Prop :=
  ∀ n < bound, later.root n = reg.root n ∧ later.name n = reg.name n

/-- A container as the registry has it, with numbers below a bound. -/
def Container.Fits (reg : Registry) (bound : Nat) : Container → Prop
  | root session d => session < bound ∧ reg.root session = d
  | child parent position d => parent.Fits reg bound ∧ parent.members.children[position]? = some d
  | member owner position d name serial => owner.Fits reg bound ∧
    owner.members.children[position]? = some d ∧ serial < bound ∧ reg.name serial = name

def Collection.Fits (reg : Registry) (bound : Nat) (c : Collection) : Prop :=
  c.owner.Fits reg bound ∧ c.owner.members.children[c.position]? = some c.descriptor

def Node.Fits (reg : Registry) (bound : Nat) : Node → Prop
  | .container c => c.Fits reg bound
  | .collection c => c.Fits reg bound
  | .leaf l => l.owner.Fits reg bound
  | .command c => c.owner.Fits reg bound

variable {reg later : Registry} {bound more : Nat}

namespace Registry

theorem Agree.refl (bound : Nat) (reg : Registry) : Agree bound reg reg := fun _ _ => ⟨rfl, rfl⟩

theorem Agree.trans {last : Registry} (h : Agree bound reg later) (h' : Agree more later last)
    (hle : bound ≤ more) : Agree bound reg last := by
  intro n hn
  obtain ⟨hroot, hname⟩ := h n hn
  obtain ⟨hroot', hname'⟩ := h' n (Nat.lt_of_lt_of_le hn hle)
  exact ⟨hroot'.trans hroot, hname'.trans hname⟩

end Registry

namespace Container

/-- A number that was given out stands for the same thing for good. -/
theorem Fits.mono {c : Container} (h : c.Fits reg bound) (agree : reg.Agree bound later)
    (hle : bound ≤ more) : c.Fits later more := by
  induction c with
  | root session d =>
    obtain ⟨hlt, rfl⟩ := h
    exact ⟨Nat.lt_of_lt_of_le hlt hle, (agree session hlt).1⟩
  | child parent position d ih => exact ⟨ih h.1, h.2⟩
  | member owner position d name serial ih =>
    obtain ⟨howner, hchild, hlt, rfl⟩ := h
    exact ⟨ih howner, hchild, Nat.lt_of_lt_of_le hlt hle, (agree serial hlt).2⟩

/-- Two containers with one address are the same container. -/
theorem Fits.eq_of_address {a b : Container} (ha : a.Fits reg bound) (hb : b.Fits reg bound)
    (h : a.address = b.address) : a = b := by
  induction a generalizing b with
  | root session d =>
    cases b with
    | root session' d' =>
      simp only [address, List.cons.injEq, Hop.session.injEq, and_true] at h
      subst h
      rw [← ha.2, ← hb.2]
    | child | member => simp [address] at h
  | child parent position d ih =>
    cases b with
    | child parent' position' d' =>
      simp only [address, List.cons.injEq, Hop.child.injEq] at h
      obtain ⟨rfl, hparent⟩ := h
      obtain rfl := ih ha.1 hb.1 hparent
      rw [Option.some.inj (ha.2.symm.trans hb.2)]
    | root | member => simp [address] at h
  | member owner position d name serial ih =>
    cases b with
    | member owner' position' d' name' serial' =>
      simp only [address, List.cons.injEq, Hop.child.injEq, Hop.member.injEq] at h
      obtain ⟨rfl, rfl, howner⟩ := h
      obtain rfl := ih ha.1 hb.1 howner
      rw [Option.some.inj (ha.2.1.symm.trans hb.2.1), ← ha.2.2.2, hb.2.2.2]
    | root | child => simp [address] at h

theorem Fits.childAt {c : Container} (h : c.Fits reg bound) {position : Nat} {d : Descriptor}
    (hd : c.members.children[position]? = some d) : (c.childAt position d).Fits reg bound := by
  cases d <;> exact ⟨h, hd⟩

theorem Fits.offers {c : Container} (h : c.Fits reg bound) {n : Node} (hn : c.Offers n) :
    n.Fits reg bound := by
  cases hn with
  | leaf hl =>
    obtain ⟨position, d, -, hl⟩ := mem_leaves_iff.1 hl
    obtain rfl := (leafAt?_eq_some hl).1
    exact h
  | child hmem =>
    obtain ⟨position, d, hd, rfl⟩ := mem_children_iff.1 hmem
    exact h.childAt hd
  | command hk =>
    obtain ⟨position, d, -, hk⟩ := mem_commands_iff.1 hk
    obtain rfl := (commandAt?_eq_some hk).1
    exact h

end Container

namespace Collection

variable {c : Collection}

theorem Fits.mono (h : c.Fits reg bound) (agree : reg.Agree bound later) (hle : bound ≤ more) :
    c.Fits later more :=
  ⟨h.1.mono agree hle, h.2⟩

theorem Fits.eq_of_address {d : Collection} (hc : c.Fits reg bound) (hd : d.Fits reg bound)
    (h : c.address = d.address) : c = d := by
  obtain ⟨owner, position, descriptor⟩ := c
  obtain ⟨owner', position', descriptor'⟩ := d
  simp only [address, List.cons.injEq, Hop.child.injEq] at h
  obtain ⟨rfl, howner⟩ := h
  have hsame : owner = owner' := hc.1.eq_of_address hd.1 howner
  subst hsame
  have hdescriptor : some descriptor = some descriptor' := hc.2.symm.trans hd.2
  rw [Option.some.inj hdescriptor]

/-- Members of a collection under their names, as the registry has them. -/
def Indexed (reg : Registry) (bound : Nat) (c : Collection) (members : Keyed Container) : Prop :=
  Keyed.Distinct members ∧ ∀ name member, (name, member) ∈ members →
    ∃ serial, member = c.member name serial ∧ serial < bound ∧ reg.name serial = name

theorem Indexed.mono {members : Keyed Container} (h : c.Indexed reg bound members)
    (agree : reg.Agree bound later) (hle : bound ≤ more) : c.Indexed later more members := by
  refine ⟨h.1, fun name member hmem => ?_⟩
  obtain ⟨serial, rfl, hlt, hname⟩ := h.2 name member hmem
  exact ⟨serial, rfl, Nat.lt_of_lt_of_le hlt hle, (agree serial hlt).2.trans hname⟩

theorem Indexed.filter {members : Keyed Container} (h : c.Indexed reg bound members)
    (keep : String × Container → Bool) : c.Indexed reg bound (members.filter keep) :=
  ⟨h.1.filter keep, fun name member hmem => h.2 name member (List.mem_of_mem_filter hmem)⟩

theorem Indexed.fits {members : Keyed Container} (h : c.Indexed reg bound members)
    (hc : c.Fits reg bound) {name : String} {member : Container} (hmem : (name, member) ∈ members) :
    member.Fits reg bound := by
  obtain ⟨serial, rfl, hlt, hname⟩ := h.2 name member hmem
  exact ⟨hc.1, hc.2, hlt, hname⟩

end Collection

theorem Node.Fits.mono {n : Node} (h : n.Fits reg bound) (agree : reg.Agree bound later)
    (hle : bound ≤ more) : n.Fits later more := by
  cases n with
  | container c => exact Container.Fits.mono h agree hle
  | collection c => exact Collection.Fits.mono h agree hle
  | leaf l => exact Container.Fits.mono h agree hle
  | command c => exact Container.Fits.mono h agree hle

/-! ### Sound memory -/

namespace Memory

variable {memory : Memory}

/-- All that is remembered is as the registry has it. -/
structure Sound (reg : Registry) (memory : Memory) : Prop where
  sessions : ∀ name s, (name, s) ∈ memory.sessions → s.root.Fits reg memory.fresh
  objects : ∀ name n, (name, n) ∈ memory.objects → n.Fits reg memory.fresh
  indexes : ∀ address index, (address, index) ∈ memory.indexes → ∃ c : Collection,
    c.Fits reg memory.fresh ∧ c.address = address ∧ c.Indexed reg memory.fresh index.members

theorem sound_empty (reg : Registry) : Sound reg {} := ⟨by simp, by simp, by simp⟩

theorem index_eq_or_mem (memory : Memory) (address : Address) :
    memory.index address = {} ∨ (address, memory.index address) ∈ memory.indexes := by
  unfold index
  cases hfind : memory.indexes.find? fun entry => entry.1 = address with
  | none => exact Or.inl rfl
  | some entry =>
    have haddress : entry.1 = address := by simpa using List.find?_some hfind
    exact Or.inr (haddress ▸ List.mem_of_find?_eq_some hfind)

namespace Sound

theorem known (sound : memory.Sound reg) {c : Collection} (hc : c.Fits reg memory.fresh) :
    c.Indexed reg memory.fresh (c.known memory) := by
  rcases memory.index_eq_or_mem c.address with hempty | hmem
  · rw [Collection.known, hempty]
    exact ⟨List.nodup_nil, by simp⟩
  · obtain ⟨c', hc', haddress, hindexed⟩ := sound.indexes _ _ hmem
    obtain rfl := hc'.eq_of_address hc haddress
    exact hindexed

theorem knowsOwn (sound : memory.Sound reg) {c : Collection} (hc : c.Fits reg memory.fresh) :
    c.KnowsOwn memory := by
  intro name member hmem
  obtain ⟨serial, heq, -⟩ := (sound.known hc).2 name member hmem
  exact ⟨serial, heq⟩

/-- More numbers may be given out, and what they stand for may be written into the registry. -/
theorem grow (sound : memory.Sound reg) (agree : reg.Agree memory.fresh later)
    (hle : memory.fresh ≤ more) : Sound later { memory with fresh := more } where
  sessions name s hmem := (sound.sessions name s hmem).mono agree hle
  objects name n hmem := (sound.objects name n hmem).mono agree hle
  indexes address index hmem := by
    obtain ⟨c, hc, haddress, hindexed⟩ := sound.indexes address index hmem
    exact ⟨c, hc.mono agree hle, haddress, hindexed.mono agree hle⟩

theorem setIndex (sound : memory.Sound reg) {c : Collection} (hc : c.Fits reg memory.fresh)
    {index : Index} (hindex : c.Indexed reg memory.fresh index.members) :
    (memory.setIndex c.address index).Sound reg where
  sessions := sound.sessions
  objects := sound.objects
  indexes address other hmem := by
    rcases List.mem_cons.1 hmem with heq | hmem
    · obtain ⟨rfl, rfl⟩ := Prod.mk.inj heq
      exact ⟨c, hc, rfl, hindex⟩
    · exact sound.indexes address other (List.mem_of_mem_filter hmem)

theorem keepSession (sound : memory.Sound reg) {s : Session} (hs : s.root.Fits reg memory.fresh)
    (name : String) : (memory.keepSession name s).Sound reg where
  sessions other s' hmem := by
    rcases Keyed.mem_insert hmem with heq | hmem
    · exact (Prod.mk.inj heq).2 ▸ hs
    · exact sound.sessions other s' hmem
  objects := sound.objects
  indexes := sound.indexes

theorem keep (sound : memory.Sound reg) {n : Node} (hn : n.Fits reg memory.fresh)
    (name : String) : (memory.keep name n).Sound reg where
  sessions := sound.sessions
  objects other n' hmem := by
    rcases Keyed.mem_insert hmem with heq | hmem
    · exact (Prod.mk.inj heq).2 ▸ hn
    · exact sound.objects other n' hmem
  indexes := sound.indexes

theorem drop (sound : memory.Sound reg) (name : String) : (memory.drop name).Sound reg where
  sessions other s hmem := sound.sessions other s (List.mem_of_mem_filter hmem)
  objects other n hmem := sound.objects other n (List.mem_of_mem_filter hmem)
  indexes := sound.indexes

theorem object? (sound : memory.Sound reg) {name : String} {n : Node}
    (h : memory.object? name = some n) : n.Fits reg memory.fresh := by
  unfold Memory.object? at h
  split at h
  · next s hs =>
    obtain rfl := Option.some.inj h
    exact sound.sessions name s (Keyed.mem_of_get? hs)
  · exact sound.objects name n (Keyed.mem_of_get? h)

end Sound

end Memory

end SettingsTree
