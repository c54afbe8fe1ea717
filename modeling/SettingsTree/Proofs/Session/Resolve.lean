import SettingsTree.Proofs.Session.Addressable
import SettingsTree.Proofs.Session.Follow

/-! # Paths and what they lead to

What a path leads to has this path. An object that is reached from the root of a session is the one
that its path leads to, if the remote still has the members on the way.
-/

namespace SettingsTree

open Client

section

variable {σ : Type} {remote : Remote σ}

/-! ### Members that the remote still has -/

/-- The collections on the way to a container, each with the name of the member on the way. -/
def Container.crossings : Container → List (Collection × String)
  | root .. => []
  | child parent _ _ => parent.crossings
  | member owner position d name _ => owner.crossings ++ [(⟨owner, position, d⟩, name)]

theorem Container.Offers.crossings {c : Container} {n : Node} (h : c.Offers n) :
    n.home.crossings = c.crossings := by
  rcases h.home with heq | ⟨position, d, heq⟩
  · rw [heq]
  · rw [heq]
    rfl

/-- When collections are enumerated one after the other, each lists the member that is on the way.
-/
def Remote.Lists (remote : Remote σ) : List (Collection × String) → σ → Prop
  | [], _ => True
  | (d, name) :: rest, s => ∃ names, (remote.call (.memberNames d.place) s).1 = .ok names ∧
    name ∈ names ∧ remote.Lists rest (remote.call (.memberNames d.place) s).2

/-- A member that is in the index and is listed stays the same object when it is got. -/
theorem Collection.get_run_of_known {d : Collection} {name : String} {member : Container}
    {names : List String} {v : World σ} (linked : d.owner.Linked v.memory)
    (answer : (remote.call (.memberNames d.place) v.remote).1 = .ok names) (listed : name ∈ names)
    (known : Keyed.get? name (d.known v.memory) = some member) :
    d.get remote name v =
      (.ok member, ⟨(remote.call (.memberNames d.place) v.remote).2, d.retain names v.memory⟩) := by
  have hpath : d.path v.memory = .ok d.place :=
    Node.path_of_rooted (n := .collection d) linked.rooted
  have hcontains : d.contains remote name v =
      (.ok true, ⟨(remote.call (.memberNames d.place) v.remote).2, d.retain names v.memory⟩) := by
    rw [contains_run hpath, answer]
    simp [Except.map, Except.mapError, listed]
  have hkept : Keyed.get? name (d.known (d.retain names v.memory)) = some member := by
    rw [get?_known_retain, if_pos listed, known]
  obtain ⟨henter, hmember⟩ := enter_of_known hkept
  rw [get, bind_run_ok hcontains, if_pos rfl, cached_run, henter, hmember]

/-! ### Objects that are reached -/

namespace Session

/-- An object that is reached from the root of a session: through what containers declare, and
through what is in the indexes of collections. -/
inductive Reaches (memory : Memory) (s : Session) : Node → Prop
  | root : Reaches memory s (.container s.root)
  | part {c : Container} {n : Node} (h : Reaches memory s (.container c)) (offers : c.Offers n) :
      Reaches memory s n
  | member {d : Collection} {name : String} {m : Container} (h : Reaches memory s (.collection d))
      (known : (name, m) ∈ d.known memory) : Reaches memory s (.container m)

/-- Following the steps to an object from the root leads to it, in a world in which the indexes of
collections below it are as they were. -/
structure Arrives (remote : Remote σ) (s : Session) (path : String) (w : World σ) (n : Node)
    (v : World σ) : Prop where
  follows : ∃ rest, n.steps = ⟨s.schema.root.remote, none⟩ :: rest ∧
    rest.foldlM (follow remote path) (.container s.root) w = (.ok n, v)
  linked : n.home.Linked v.memory
  below : ∀ a, n.home.address.length ≤ a.length → v.memory.index a = w.memory.index a

/-- What is known of a container that is reached. -/
structure Stands (remote : Remote σ) (reg : Registry) (s : Session) (w : World σ) (c : Container) :
    Prop where
  fits : c.Fits reg w.memory.fresh
  schema : s.schema.root.Reaches c.descriptor
  linked : c.Linked w.memory
  proper : ∀ step ∈ c.steps, Proper step.type
  arrives : ∀ path more, remote.Lists (c.crossings ++ more) w.remote →
    ∃ v, Arrives remote s path w (.container c) v ∧ remote.Lists more v.remote

variable {reg : Registry} {s : Session} {w v : World σ} {c : Container} {path : String}

theorem Arrives.part {n : Node} (h : Arrives remote s path w (.container c) v)
    (distinct : (c.members.all.map fun m => m.descriptor.remote).Nodup) (offers : c.Offers n) :
    Arrives remote s path w n v where
  follows := by
    obtain ⟨rest, hsteps, hrun⟩ := h.follows
    have hc : c.steps = ⟨s.schema.root.remote, none⟩ :: rest := hsteps
    refine ⟨rest ++ [⟨n.descriptor.remote, none⟩], by rw [offers.steps, hc]; rfl, ?_⟩
    rw [List.foldlM_append, bind_run_ok hrun, List.foldlM_cons,
      follow_offered remote path distinct offers]
    rfl
  linked := offers.linked h.linked
  below a ha := by
    refine h.below a (Nat.le_trans ?_ ha)
    rcases offers.home with heq | ⟨position, d, heq⟩
    · rw [heq]
      exact Nat.le_refl _
    · rw [heq]
      exact Nat.le_succ _

theorem Stands.root (addressable : s.schema.root.Addressable) (sound : w.memory.Sound reg)
    {key : String} (kept : Keyed.get? key w.memory.sessions = some s) :
    Stands remote reg s w s.root where
  fits := sound.sessions key s (Keyed.mem_of_get? kept)
  schema := .root
  linked := linked_of_kept kept
  proper step hstep := by
    rw [List.mem_singleton.1 hstep]
    exact addressable.proper
  arrives path more lists := ⟨w, ⟨⟨[], rfl, rfl⟩, linked_of_kept kept, fun _ _ => rfl⟩, lists⟩

namespace Stands

theorem proper_part (h : Stands remote reg s w c) (addressable : s.schema.root.Addressable)
    {n : Node} (offers : c.Offers n) : ∀ step ∈ n.steps, Proper step.type := by
  intro step hstep
  rw [offers.steps, List.mem_append, List.mem_singleton] at hstep
  rcases hstep with hstep | rfl
  · exact h.proper step hstep
  · obtain ⟨m, hm, hdescriptor⟩ := offers.member
    rw [← hdescriptor]
    exact Container.proper_of_mem_members addressable h.schema hm

theorem child (h : Stands remote reg s w c) (addressable : s.schema.root.Addressable)
    {m : Container} (offers : c.Offers (.container m)) : Stands remote reg s w m where
  fits := h.fits.offers offers
  schema := offers.reaches h.schema
  linked := offers.linked h.linked
  proper := h.proper_part addressable offers
  arrives path more lists := by
    have hcrossings : m.crossings = c.crossings := offers.crossings
    obtain ⟨v, harrives, hmore⟩ := h.arrives path more (hcrossings ▸ lists)
    exact ⟨v, harrives.part (Container.distinct_of_addressable addressable h.schema) offers, hmore⟩

theorem member (h : Stands remote reg s w c) (addressable : s.schema.root.Addressable)
    (sound : w.memory.Sound reg) {d : Collection} (offers : c.Offers (.collection d))
    {name : String}
    {m : Container} (known : (name, m) ∈ d.known w.memory) : Stands remote reg s w m := by
  obtain rfl := offers.owner_of_collection
  have hd : d.Fits reg w.memory.fresh := h.fits.offers offers
  have hindexed := sound.known hd
  have hget := Keyed.get?_of_mem hindexed.1 known
  have hfits := hindexed.fits hd known
  obtain ⟨serial, rfl, -⟩ := hindexed.2 name m known
  refine ⟨hfits, ?_, ⟨h.linked, hget⟩, ?_, fun path more lists => ?_⟩
  · exact Descriptor.reaches_template (offers.reaches h.schema)
  · intro step hstep
    rcases List.mem_append.1 hstep with hstep | hstep
    · exact h.proper step hstep
    · rw [List.mem_singleton.1 hstep]
      have hproper := h.proper_part addressable offers ⟨d.descriptor.remote, none⟩
      exact hproper (List.mem_append_right _ List.mem_cons_self)
  · have hcrossings : (d.member name serial).crossings ++ more =
        d.owner.crossings ++ ((d, name) :: more) := by
      simp [Collection.member, Container.crossings]
    rw [hcrossings] at lists
    obtain ⟨v, harrives, names, answer, listed, hmore⟩ := h.arrives path _ lists
    obtain ⟨rest, hsteps, hrun⟩ := harrives.follows
    have hbelow : d.owner.address.length ≤ d.address.length := by simp [Collection.address]
    have hknown : Keyed.get? name (d.known v.memory) = some (d.member name serial) := by
      rw [Collection.known, harrives.below d.address hbelow]
      exact hget
    have hgot := Collection.get_run_of_known harrives.linked answer listed hknown
    have hchanged := Collection.changedAt_retain d names v.memory
    refine ⟨⟨(remote.call (.memberNames d.place) v.remote).2, d.retain names v.memory⟩,
      ⟨⟨rest ++ [.member d.descriptor.remote name], ?_, ?_⟩, ⟨?_, ?_⟩, fun a ha => ?_⟩, hmore⟩
    · have hc : d.owner.steps = ⟨s.schema.root.remote, none⟩ :: rest := hsteps
      change d.owner.steps ++ [.member d.descriptor.remote name] = _
      rw [hc]
      rfl
    · have hdistinct := Container.distinct_of_addressable addressable h.schema
      rw [List.foldlM_append, bind_run_ok hrun, List.foldlM_cons,
        follow_collection remote path hdistinct offers, bind_run, map_run, hgot]
      rfl
    · exact Container.Linked.of_changedAt harrives.linked hchanged hbelow
    · change Keyed.get? name (d.known (d.retain names v.memory)) = _
      rw [Collection.get?_known_retain, if_pos listed, hknown]
      rfl
    · have hlength : d.owner.address.length + 2 ≤ a.length := ha
      have hne : a ≠ d.address := by
        rintro rfl
        simp only [Collection.address, List.length_cons] at hlength
        omega
      rw [hchanged.index a hne, harrives.below a]
      exact Nat.le_trans (Nat.le_add_right _ 2) hlength

end Stands

/-- What is reached is a container that stands, or is offered by one. -/
theorem Reaches.stands (remote : Remote σ) (addressable : s.schema.root.Addressable)
    (sound : w.memory.Sound reg)
    {key : String} (kept : Keyed.get? key w.memory.sessions = some s) {n : Node}
    (h : s.Reaches w.memory n) :
    ∃ c, Stands remote reg s w c ∧ (n = .container c ∨ c.Offers n) := by
  induction h with
  | root => exact ⟨s.root, .root addressable sound kept, Or.inl rfl⟩
  | @part c n _ offers ih =>
    obtain ⟨c', hc', heq | offers'⟩ := ih
    · cases heq
      exact ⟨c, hc', Or.inr offers⟩
    · exact ⟨c, hc'.child addressable offers', Or.inr offers⟩
  | @member d name m _ known ih =>
    obtain ⟨c, hc, heq | offers⟩ := ih
    · cases heq
    · exact ⟨m, hc.member addressable sound offers known, Or.inl rfl⟩

theorem Reaches.resolve (addressable : s.schema.root.Addressable) (sound : w.memory.Sound reg)
    {key : String} (kept : Keyed.get? key w.memory.sessions = some s) {n : Node}
    (h : s.Reaches w.memory n) (shallow : n.steps.length ≤ Path.maxDepth)
    (names : ∀ step ∈ n.steps, ∀ name, step.name = some name → Path.checkObjectName name = .ok ())
    (lists : remote.Lists n.home.crossings w.remote) :
    n.path w.memory = .ok n.place ∧ (s.resolve remote n.place w).1 = .ok n := by
  obtain ⟨c, hc, hn⟩ := h.stands remote addressable sound kept
  have hproper : ∀ step ∈ n.steps, Proper step.type := by
    rcases hn with rfl | offers
    · exact hc.proper
    · exact hc.proper_part addressable offers
  have hlinked : n.home.Linked w.memory := by
    rcases hn with rfl | offers
    · exact hc.linked
    · exact offers.linked hc.linked
  have harrives : ∃ v, Arrives remote s n.place w n v := by
    rcases hn with rfl | offers
    · obtain ⟨v, harrives, -⟩ :=
        hc.arrives (Node.container c).place [] ((List.append_nil _).symm ▸ lists)
      exact ⟨v, harrives⟩
    · rw [offers.crossings] at lists
      obtain ⟨v, harrives, -⟩ := hc.arrives n.place [] ((List.append_nil _).symm ▸ lists)
      exact ⟨v, harrives.part (Container.distinct_of_addressable addressable hc.schema) offers⟩
  obtain ⟨v, rest, hsteps, hrun⟩ := harrives.imp fun v h => h.follows
  have htidy : ∀ step ∈ n.steps, step.Tidy := fun step hstep =>
    ⟨hproper step hstep, names step hstep⟩
  have hcheck : Path.check n.place = .ok () := Path.check_render htidy shallow
  have hparse : Path.parse n.place = ⟨s.schema.root.remote, none⟩ :: rest := by
    rw [← hsteps]
    exact Path.parse_render (by simp [hsteps]) htidy
  refine ⟨Node.path_of_rooted hlinked.rooted, ?_⟩
  rw [resolve_eq_foldlM remote hcheck hparse, hrun]

end Session

/-- In every world that callers can reach, and for every session that is kept there: what a path
leads to has this path. If names can be written into paths and tell the members of containers apart,
then the path of an object that is reached from the root, through members with names that a
collection accepts and that the remote lists, leads to this very object. -/
theorem resolve_path_inverse {w : World σ} (reachable : w.Reachable remote) {key : String}
    {s : Session} (kept : Keyed.get? key w.memory.sessions = some s) :
    (∀ path n w', s.resolve remote path w = (.ok n, w') → n.path w'.memory = .ok path) ∧
      (s.schema.root.Addressable → ∀ n, s.Reaches w.memory n → n.steps.length ≤ Path.maxDepth →
        (∀ step ∈ n.steps, ∀ name, step.name = some name → Path.checkObjectName name = .ok ()) →
        remote.Lists n.home.crossings w.remote →
        ∃ path, n.path w.memory = .ok path ∧ (s.resolve remote path w).1 = .ok n) := by
  obtain ⟨reg, sound⟩ := reachable.sound
  have hfits := sound.sessions key s (Keyed.mem_of_get? kept)
  refine ⟨fun path n w' h => ?_, fun addressable n h shallow names lists => ?_⟩
  · exact Session.path_of_resolve sound hfits (Session.linked_of_kept kept) h
  · exact ⟨n.place, h.resolve addressable sound kept shallow names lists⟩

end

/-! ### A member with a colon in its name -/

namespace Shelf

def remote : Remote Unit := .agreeing fun _ => (["a:b"], ())

def size : Descriptor := .leaf ⟨"Size", "size", 0⟩ .integer

def template : Descriptor := .container ⟨"Items", "items", 0⟩ [size] [] []

def items : Descriptor := .collection ⟨"Items", "items", 0⟩ template

def schema : Compiled := ⟨"", "", "Root", .container ⟨"Root", "root", 0⟩ [] [items] []⟩

def world : World Unit :=
  (Action.performAll remote [.adopt "s" schema, .apply "s" (.collection "items") (some "items"),
    .apply "items" (.get "a:b") none] { remote := () }).2

def session : Session := ⟨⟨schema, .compiled⟩, 0⟩

def collection : Collection := ⟨session.root, 0, items⟩

def member : Container := collection.member "a:b" 1

def leaf : Leaf := ⟨member, 0, ⟨"Size", "size", 0⟩, .integer⟩

theorem addressable : schema.root.Addressable := by
  have hsize : ∀ d, size.Reaches d → d.Distinguishes :=
    Descriptor.forall_reaches_iff.2 ⟨nofun, by simp [size, Descriptor.parts]⟩
  have htemplate : ∀ d, template.Reaches d → d.Distinguishes := by
    refine Descriptor.forall_reaches_iff.2 ⟨fun members h => ?_, ?_⟩
    · cases h
      decide
    · simpa [template, Descriptor.parts]
  have hitems : ∀ d, items.Reaches d → d.Distinguishes := by
    refine Descriptor.forall_reaches_iff.2 ⟨fun members h => ?_, ?_⟩
    · cases h
      decide
    · simpa [items, Descriptor.parts]
  refine ⟨by decide, Descriptor.forall_reaches_iff.2 ⟨fun members h => ?_, ?_⟩⟩
  · cases h
    decide
  · simpa [schema, Descriptor.parts]

theorem reaches : session.Reaches world.memory (.leaf leaf) := by
  have hcollection : session.Reaches world.memory (.collection collection) :=
    .part .root (.child List.mem_cons_self)
  have hmember : session.Reaches world.memory (.container member) :=
    .member hcollection (List.mem_singleton.2 rfl : ("a:b", member) ∈ [("a:b", member)])
  exact .part hmember (.leaf List.mem_cons_self)

end Shelf

/-- The path of a setting of the member leads back to the setting. -/
theorem resolve_path_inverse_shelf :
    Shelf.world.Reachable Shelf.remote ∧
      Keyed.get? "s" Shelf.world.memory.sessions = some Shelf.session ∧
      ∃ path, (Node.leaf Shelf.leaf).path Shelf.world.memory = .ok path ∧
        (Shelf.session.resolve Shelf.remote path Shelf.world).1 = .ok (.leaf Shelf.leaf) := by
  have reachable : Shelf.world.Reachable Shelf.remote := ⟨(), _, rfl⟩
  have kept : Keyed.get? "s" Shelf.world.memory.sessions = some Shelf.session := rfl
  have names : ∀ step ∈ (Node.leaf Shelf.leaf).steps, ∀ name, step.name = some name →
      Path.checkObjectName name = .ok () := by
    intro step hstep name hname
    have hsteps : step ∈ [⟨"Root", none⟩, ⟨"Items", some "a:b"⟩, ⟨"Size", none⟩] := hstep
    simp only [List.mem_cons, List.not_mem_nil, or_false] at hsteps
    rcases hsteps with rfl | rfl | rfl <;> cases hname
    rfl
  exact ⟨reachable, kept, (resolve_path_inverse reachable kept).2 Shelf.addressable _ Shelf.reaches
    (by decide) names ⟨["a:b"], rfl, List.mem_cons_self, trivial⟩⟩

end SettingsTree
