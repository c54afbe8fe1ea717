import SettingsTree.Proofs.Session.Linked
import SettingsTree.Proofs.Session.Reachable

/-! # Callers who keep everything

Callers open any number of sessions and work with all objects that they ever got, in any order. They
go from object to object by operations, and forget nothing. What they have then stays alive,
whatever happens to indexes: everything above it was got before it, and is kept.
-/

namespace SettingsTree

def Container.parts (c : Container) : List Node :=
  c.leaves.map .leaf ++ c.children ++ c.commands.map .command

/-- All parts of a container under their local names. -/
def Node.browse : Node → Option (Reply Node)
  | .container c => some (.entries (c.parts.map fun n => (n.descriptor.localName, n)))
  | _ => none

/-- What such callers do. An object is told by the number of objects that were got before it. -/
inductive Move where
  | adopt (schema : Compiled)
  /-- Connect as a configuration says, where the function gives the contents of files. -/
  | connect (config : Config) (files : String → Option String)
  | connectWith (config : Config) (shipped : Option Compiled)
  /-- Take everything that a container declares. -/
  | browse (handle : Nat)
  | use (handle : Nat) (operation : Operation)

namespace Memory

/-- The objects that callers keep, in the order in which they got them. -/
def handles (memory : Memory) : List Node := memory.objects.map Prod.snd

/-- Keep more objects, each under a name of its own. -/
def hold (memory : Memory) (ns : List Node) : Memory :=
  { memory with
    objects := memory.objects ++
      (ns.zipIdx memory.objects.length).map fun entry => (Nat.repr entry.2, entry.1) }

def addSession (memory : Memory) (s : Session) : Memory :=
  { memory with sessions := memory.sessions ++ [(Nat.repr memory.sessions.length, s)] }

end Memory

namespace Move

variable {σ : Type} (remote : Remote σ)

/-- Keep a new session, and its root as an object. -/
def keepSession (reports : List Fallback) :
    Except ClientError Session × World σ → Outcome × World σ
  | (.ok s, w) => (.connected reports (.ok s.toSelected),
      { w with memory := (w.memory.addSession s).hold [.container s.root] })
  | (.error fault, w) => (.connected reports (.error fault), w)

/-- Keep all objects of a reply, and show it. -/
def keepReply : Except ClientError (Reply Node) × World σ → Outcome × World σ
  | (.ok reply, w) =>
    let memory := w.memory.hold reply.objects
    (.replied (reply.map (Node.view memory)), { w with memory := memory })
  | (.error fault, w) => (.failed fault, w)

/-- Do something that an object may not have. -/
def attempt : Option (Client σ (Reply Node)) → StateM (World σ) Outcome
  | none => fun w => (.unsuitable, w)
  | some act => fun w => keepReply (act w)

def perform : Move → StateM (World σ) Outcome
  | .adopt schema => fun w => keepSession [] (Session.ofSchema schema .compiled w)
  | .connect config files => fun w => keepSession [] (Session.connect remote config files w)
  | .connectWith config shipped => fun w =>
    let made := Session.connectWith remote config shipped w
    keepSession made.1.1 (made.1.2, made.2)
  | .browse handle => fun w =>
    match w.memory.handles[handle]? with
    | none => (.unknown, w)
    | some n => attempt (n.browse.map pure) w
  | .use handle operation => fun w =>
    match w.memory.handles[handle]? with
    | none => (.unknown, w)
    | some n => attempt (n.perform remote operation) w

def performAll (moves : List Move) : StateM (World σ) (List Outcome) := moves.mapM (perform remote)

end Move

/-! ### What is kept -/

namespace Memory

variable {memory later : Memory} {reg : Registry} {ns : List Node}

@[simp] theorem handles_hold (memory : Memory) (ns : List Node) :
    (memory.hold ns).handles = memory.handles ++ ns := by
  rw [handles, hold, List.map_append, List.map_map]
  exact congrArg (memory.handles ++ ·) (List.zipIdx_map_fst _ ns)

theorem held_eq (memory : Memory) : memory.held =
    memory.sessions.map (fun entry => entry.2.root.address) ++ memory.handles.map Node.address := by
  rw [held, handles, List.map_map]
  rfl

theorem held_hold (memory : Memory) (ns : List Node) :
    (memory.hold ns).held = memory.held ++ ns.map Node.address := by
  rw [held_eq, held_eq, handles_hold, List.map_append, List.append_assoc]
  rfl

theorem held_subset_hold (memory : Memory) (ns : List Node) :
    memory.held ⊆ (memory.hold ns).held := by
  rw [held_hold]
  exact List.subset_append_left _ _

theorem mem_held_hold {n : Node} (h : n ∈ ns) : n.address ∈ (memory.hold ns).held := by
  rw [held_hold]
  exact List.mem_append_right _ (List.mem_map_of_mem h)

theorem mem_handles_of_mem {name : String} {n : Node} (h : (name, n) ∈ memory.objects) :
    n ∈ memory.handles := List.mem_map_of_mem h

theorem exists_of_mem_handles {n : Node} (h : n ∈ memory.handles) :
    ∃ name, (name, n) ∈ memory.objects := by
  obtain ⟨⟨name, m⟩, hmem, rfl⟩ := List.mem_map.1 h
  exact ⟨name, hmem⟩

theorem Sound.handles (sound : memory.Sound reg) {n : Node} (h : n ∈ memory.handles) :
    n.Fits reg memory.fresh := by
  obtain ⟨name, hmem⟩ := exists_of_mem_handles h
  exact sound.objects name n hmem

theorem Sound.hold (sound : memory.Sound reg) (hns : ∀ n ∈ ns, n.Fits reg memory.fresh) :
    (memory.hold ns).Sound reg where
  sessions := sound.sessions
  objects name n hmem := by
    have hn : n ∈ (memory.hold ns).handles := mem_handles_of_mem hmem
    rw [handles_hold] at hn
    rcases List.mem_append.1 hn with hn | hn
    · exact sound.handles hn
    · exact hns n hn
  indexes := sound.indexes

/-- Everything that is kept is anchored, in sound memory. -/
structure Steady (memory : Memory) : Prop where
  sound : ∃ reg, memory.Sound reg
  anchored : ∀ n ∈ memory.handles, n.home.Anchored memory

theorem steady_empty : Steady {} where
  sound := ⟨⟨fun _ => .leaf ⟨"", "", 0⟩ .string, fun _ => ""⟩, sound_empty _⟩
  anchored _ h := absurd h List.not_mem_nil

theorem Grows.handles {last : Registry} (grows : Grows reg memory last later) :
    later.handles = memory.handles := by
  rw [Memory.handles, grows.objects, Memory.handles]

/-- What an operation does to indexes does not matter to what is kept. -/
theorem Grows.steady {last : Registry} (grows : Grows reg memory last later)
    (steady : memory.Steady) : later.Steady where
  sound := ⟨last, grows.sound⟩
  anchored n hn := by
    rw [grows.handles] at hn
    exact (steady.anchored n hn).mono fun _ ha => grows.held ▸ ha

/-- More can be kept, where it is anchored then. -/
theorem Steady.hold (steady : memory.Steady) (sound : memory.Sound reg)
    (hfits : ∀ n ∈ ns, n.Fits reg memory.fresh)
    (hanchored : ∀ n ∈ ns, n.home.Anchored (memory.hold ns)) : (memory.hold ns).Steady where
  sound := ⟨reg, sound.hold hfits⟩
  anchored n hn := by
    rw [handles_hold] at hn
    rcases List.mem_append.1 hn with hn | hn
    · exact (steady.anchored n hn).mono (held_subset_hold memory ns)
    · exact hanchored n hn

theorem held_addSession (memory : Memory) (s : Session) :
    (memory.addSession s).held = memory.sessions.map (fun entry => entry.2.root.address) ++
      s.root.address :: memory.handles.map Node.address := by
  simp [held_eq, addSession, handles]

theorem Sound.addSession (sound : memory.Sound reg) {s : Session}
    (hs : s.root.Fits reg memory.fresh) : (memory.addSession s).Sound reg where
  sessions name s' hmem := by
    rcases List.mem_append.1 hmem with hmem | hmem
    · exact sound.sessions name s' hmem
    · exact (Prod.mk.inj (List.mem_singleton.1 hmem)).2 ▸ hs
  objects := sound.objects
  indexes := sound.indexes

theorem Steady.addSession (steady : memory.Steady) (sound : memory.Sound reg) {s : Session}
    (hs : s.root.Fits reg memory.fresh) :
    ((memory.addSession s).hold [.container s.root]).Steady := by
  have steady' : (memory.addSession s).Steady := by
    refine ⟨⟨reg, sound.addSession hs⟩, fun n hn => (steady.anchored n hn).mono fun a ha => ?_⟩
    rw [held_eq] at ha
    rw [held_addSession]
    rcases List.mem_append.1 ha with ha | ha
    · exact List.mem_append_left _ ha
    · exact List.mem_append_right _ (List.mem_cons_of_mem _ ha)
  refine steady'.hold (sound.addSession hs) (fun n hn => ?_) fun n hn => ?_
  · rw [List.mem_singleton.1 hn]
    exact hs
  · rw [List.mem_singleton.1 hn]
    have hroot : s.root.address ∈ (memory.addSession s).held := by
      rw [held_addSession]
      exact List.mem_append_right _ List.mem_cons_self
    exact Container.Anchored.mono (c := s.root) hroot (held_subset_hold _ _)

end Memory

/-- What an operation of an anchored object gives is anchored as soon as it is kept. -/
theorem Node.Yields.anchored {n m : Node} {memory later : Memory} {reg : Registry}
    (h : n.Yields memory m) (sound : memory.Sound reg) (hn : n.Fits reg memory.fresh)
    (hanchored : n.home.Anchored memory) (hle : memory.held ⊆ later.held)
    (hheld : m.address ∈ later.held) : m.home.Anchored later := by
  cases h with
  | self => exact hanchored.mono hle
  | home => exact hanchored.mono hle
  | part offers => exact (offers.anchored hanchored).mono hle
  | member known =>
    obtain ⟨serial, rfl, -, -⟩ := (sound.known hn).2 _ _ (Keyed.mem_of_get? known)
    exact ⟨hanchored.mono hle, hheld⟩

/-! ### What moves keep -/

theorem Container.offers_of_mem_parts {c : Container} {n : Node} (h : n ∈ c.parts) :
    c.Offers n := by
  simp only [parts, List.mem_append, List.mem_map] at h
  rcases h with (⟨l, hl, rfl⟩ | hn) | ⟨k, hk, rfl⟩
  · exact .leaf hl
  · exact .child hn
  · exact .command hk

theorem Node.browse_sane {σ : Type} {n : Node} {x : Client σ (Reply Node)}
    (h : n.browse.map pure = some x) :
    Client.Sane (fun reg m => n.Fits reg m.fresh) x fun reply _ m => reply.From n m := by
  cases n with
  | container c =>
    refine Option.some.inj h ▸ .given fun m n hn => ?_
    simp only [Reply.objects, List.map_map, List.mem_map] at hn
    obtain ⟨n, hn, rfl⟩ := hn
    exact .part (Container.offers_of_mem_parts hn)
  | collection | leaf | command => cases h

namespace Move

open Client

variable {σ : Type} {w : World σ} {n : Node}

theorem keepSession_steady {x : Client σ Session}
    (hx : Sane (fun _ _ => True) x fun s reg m => s.root.Fits reg m.fresh)
    (steady : w.memory.Steady) (reports : List Fallback) :
    (keepSession reports (x w)).2.memory.Steady := by
  obtain ⟨reg, sound⟩ := steady.sound
  obtain ⟨later, grows, hfits⟩ := hx reg w sound trivial
  have steady' := grows.steady steady
  rcases hrun : x w with ⟨fault | s, v⟩ <;> rw [hrun] at grows hfits steady'
  · exact steady'
  · exact steady'.addSession grows.sound (hfits s rfl)

theorem keepReply_steady {x : Client σ (Reply Node)}
    (hx : Sane (fun reg m => n.Fits reg m.fresh) x fun reply _ m => reply.From n m)
    (steady : w.memory.Steady) (hn : n ∈ w.memory.handles) :
    (keepReply (x w)).2.memory.Steady := by
  obtain ⟨reg, sound⟩ := steady.sound
  obtain ⟨later, grows, hfrom⟩ := hx reg w sound (sound.handles hn)
  have steady' := grows.steady steady
  rw [← grows.handles] at hn
  rcases hrun : x w with ⟨fault | reply, v⟩ <;> rw [hrun] at grows hfrom steady' hn
  · exact steady'
  · have hfits := grows.sound.handles hn
    refine steady'.hold grows.sound (fun m hm => ?_) fun m hm => ?_
    · exact (hfrom reply rfl m hm).fits grows.sound hfits
    · exact (hfrom reply rfl m hm).anchored grows.sound hfits (steady'.anchored n hn)
        (Memory.held_subset_hold _ _) (Memory.mem_held_hold hm)

end Move

end SettingsTree
