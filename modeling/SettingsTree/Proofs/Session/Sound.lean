import SettingsTree.Proofs.Session.Registry
import SettingsTree.Proofs.Session.Told
import SettingsTree.Session.Action

/-! # Memory stays sound

Whatever callers do and whatever the remote answers, memory stays as a registry has it, where new
numbers are written into the registry as they are given out. What an operation gives is as the
registry has it, too.
-/

namespace SettingsTree

/-! ### Sound steps -/

section

variable {memory : Memory} {reg : Registry}

/-- A member that enters an index takes a new number, which stands for its name from then on. -/
theorem Memory.Sound.enter (sound : memory.Sound reg) {c : Collection}
    (hc : c.Fits reg memory.fresh) (name : String) :
    ∃ later, reg.Agree memory.fresh later ∧ (c.enter name memory).Sound later := by
  cases hget : Keyed.get? name (c.known memory) with
  | some member =>
    rw [(Collection.enter_of_known hget).1]
    exact ⟨reg, .refl _ _, sound⟩
  | none =>
    let later : Registry :=
      { reg with name := fun n => if n = memory.fresh then name else reg.name n }
    have agree : reg.Agree memory.fresh later := fun n hn => ⟨rfl, if_neg (Nat.ne_of_lt hn)⟩
    have hle := Nat.le_succ memory.fresh
    have hindexed := (sound.known hc).mono agree hle
    have hnew : name ∉ Keyed.names (c.known memory) := Keyed.get?_eq_none_iff.1 hget
    refine ⟨later, agree, ?_⟩
    rw [Collection.enter, hget]
    refine (sound.grow agree hle).setIndex (hc.mono agree hle) ⟨?_, fun other member hmem => ?_⟩
    · dsimp only
      rw [Keyed.insert_of_not_mem hnew, Keyed.Distinct, Keyed.names_append]
      refine List.nodup_append.2 ⟨hindexed.1, by simp, fun a ha b hb heq => ?_⟩
      rw [Keyed.names_cons, Keyed.names_nil, List.mem_singleton] at hb
      rw [heq, hb] at ha
      exact hnew ha
    · rcases Keyed.mem_insert hmem with heq | hmem
      · obtain ⟨rfl, rfl⟩ := Prod.mk.inj heq
        exact ⟨memory.fresh, rfl, Nat.lt_succ_self _, if_pos rfl⟩
      · exact hindexed.2 other member hmem

theorem Collection.Trace.sound {σ : Type} {remote : Remote σ} {c : Collection} {w v : World σ}
    {said : List Exchange} (trace : Trace remote c w said v) (sound : w.memory.Sound reg)
    (hc : c.Fits reg w.memory.fresh) :
    ∃ later, reg.Agree w.memory.fresh later ∧ v.memory.Sound later := by
  induction trace with
  | start => exact ⟨reg, .refl _ _, sound⟩
  | exchange _ _ _ _ ih => exact ih
  | enumerate trace _ ih =>
    obtain ⟨later, agree, sound'⟩ := ih
    have hc' := hc.mono agree trace.changedAt.fresh
    exact ⟨later, agree, sound'.setIndex hc' ((sound'.known hc').filter _)⟩
  | delete trace _ ih =>
    obtain ⟨later, agree, sound'⟩ := ih
    have hc' := hc.mono agree trace.changedAt.fresh
    exact ⟨later, agree, sound'.setIndex hc' ((sound'.known hc').filter _)⟩
  | enter trace _ ih =>
    obtain ⟨later, agree, sound'⟩ := ih
    obtain ⟨last, agree', sound''⟩ := sound'.enter (hc.mono agree trace.changedAt.fresh) _
    exact ⟨last, agree.trans agree' trace.changedAt.fresh, sound''⟩

end

/-! ### Sound operations -/

/-- How memory is after an operation: callers keep what they kept, numbers were at most added, and
everything is as the later registry has it. -/
structure Memory.Grows (reg : Registry) (memory : Memory) (later : Registry) (after : Memory) :
    Prop where
  agree : reg.Agree memory.fresh later
  fresh_le : memory.fresh ≤ after.fresh
  sessions : after.sessions = memory.sessions
  objects : after.objects = memory.objects
  sound : after.Sound later

namespace Memory.Grows

variable {reg later last : Registry} {memory after final : Memory}

theorem refl (sound : memory.Sound reg) : Grows reg memory reg memory :=
  ⟨.refl _ _, Nat.le_refl _, rfl, rfl, sound⟩

theorem trans (h : Grows reg memory later after) (h' : Grows later after last final) :
    Grows reg memory last final where
  agree := h.agree.trans h'.agree h.fresh_le
  fresh_le := Nat.le_trans h.fresh_le h'.fresh_le
  sessions := h'.sessions.trans h.sessions
  objects := h'.objects.trans h.objects
  sound := h'.sound

theorem held (grows : Grows reg memory later after) : after.held = memory.held := by
  rw [Memory.held, grows.sessions, grows.objects, Memory.held]

end Memory.Grows

namespace Client

variable {σ α β : Type}

/-- The operation keeps memory sound where `pre` holds of the registry, and `post` then holds of
what it gives. -/
def Sane (pre : Registry → Memory → Prop) (x : Client σ α)
    (post : α → Registry → Memory → Prop) : Prop :=
  ∀ reg w, w.memory.Sound reg → pre reg w.memory →
    ∃ later, w.memory.Grows reg later (x w).2.memory ∧
      ∀ a, (x w).1 = .ok a → post a later (x w).2.memory

namespace Sane

variable {pre pre' : Registry → Memory → Prop} {x : Client σ α}
  {post : α → Registry → Memory → Prop}

theorem weaken (hx : Sane pre x post) (h : ∀ reg m, pre' reg m → pre reg m) : Sane pre' x post :=
  fun reg w sound hw => hx reg w sound (h reg w.memory hw)

theorem bind {f : α → Client σ β} {last : β → Registry → Memory → Prop} (hx : Sane pre x post)
    (hf : ∀ a, Sane (post a) (f a) last) : Sane pre (x >>= f) last := by
  intro reg w sound hw
  obtain ⟨later, grows, h'⟩ := hx reg w sound hw
  rcases hrun : x w with ⟨_ | a, v⟩
  · rw [bind_run_error hrun]
    rw [hrun] at grows
    exact ⟨later, grows, by simp⟩
  · rw [bind_run_ok hrun]
    rw [hrun] at grows h'
    obtain ⟨last, grows', h''⟩ := hf a later v grows.sound (h' a rfl)
    exact ⟨last, grows.trans grows', h''⟩

theorem map {f : α → β} {last : β → Registry → Memory → Prop} (hx : Sane pre x post)
    (hf : ∀ a reg m, post a reg m → last (f a) reg m) : Sane pre (f <$> x) last := by
  intro reg w sound hw
  obtain ⟨later, grows, h'⟩ := hx reg w sound hw
  rw [map_run]
  refine ⟨later, grows, fun b hb => ?_⟩
  obtain ⟨a, ha, rfl⟩ := map_eq_ok_iff.1 hb
  exact hf a _ _ (h' a ha)

theorem of_quiet (hx : x.Quiet)
    (h : ∀ reg w a, (x w).1 = .ok a → pre reg w.memory → post a reg w.memory) :
    Sane pre x post := by
  intro reg w sound hw
  refine ⟨reg, ?_⟩
  rw [hx w]
  exact ⟨.refl sound, fun a ha => h reg w a ha hw⟩

end Sane

end Client

theorem Collection.Traced.sane {σ α : Type} {remote : Remote σ} {c : Collection} {x : Client σ α}
    {post : α → List Exchange → Memory → Prop} {last : α → Registry → Memory → Prop}
    (hx : c.Traced remote (fun _ _ => True) x post)
    (h : ∀ a said m reg, post a said m → m.Sound reg → c.Fits reg m.fresh → last a reg m) :
    Client.Sane (fun reg m => c.Fits reg m.fresh) x last := by
  intro reg w sound hc
  obtain ⟨said, trace, hpost⟩ := hx w [] w .start trivial
  obtain ⟨later, agree, sound'⟩ := trace.sound sound hc
  have changed := trace.changedAt
  exact ⟨later, ⟨agree, changed.fresh, changed.sessions, changed.objects, sound'⟩, fun a ha =>
    h a said _ _ (hpost a ha) sound' (hc.mono agree changed.fresh)⟩

/-! ### Operations of objects -/

/-- What an object gives is as the registry has it, where the object is. -/
theorem Node.Yields.fits {reg : Registry} {memory : Memory} {n m : Node} (h : n.Yields memory m)
    (sound : memory.Sound reg) (hn : n.Fits reg memory.fresh) : m.Fits reg memory.fresh := by
  cases h with
  | self => exact hn
  | home =>
    cases n with
    | collection c => exact hn.1
    | container | leaf | command => exact hn
  | part offers => exact Container.Fits.offers hn offers
  | member known => exact (sound.known hn).fits hn (Keyed.mem_of_get? known)

/-- An object gives a root only if it is this root itself, or if the root lives. -/
theorem Node.Yields.root {reg : Registry} {memory : Memory} {n m : Node} (h : n.Yields memory m)
    (sound : memory.Sound reg) (hn : n.Fits reg memory.fresh) {number : Nat}
    (hroot : m.address = [.session number]) : m = n ∨ memory.alive [.session number] := by
  cases h with
  | self => exact Or.inl rfl
  | home _ alive =>
    have hhome : n.home.address = [.session number] := hroot
    exact Or.inr (hhome ▸ alive)
  | part offers => exact absurd hroot (offers.inner number)
  | member known =>
    obtain ⟨serial, rfl, -⟩ := (sound.known hn).2 _ _ (Keyed.mem_of_get? known)
    exact absurd hroot (Collection.inner_member _ _ serial number)

section

open Client

variable {σ α : Type} {remote : Remote σ} {pre : Registry → Memory → Prop} {n : Node}

theorem Client.Sane.silent {x : Client σ α} (hx : x.Quiet) {f : α → Reply Node}
    (hf : ∀ a, (f a).objects = []) : Sane pre (f <$> x) fun reply _ m => reply.From n m := by
  refine .of_quiet (hx.map f) fun reg w reply hreply _ => ?_
  rw [map_run] at hreply
  obtain ⟨a, -, rfl⟩ := map_eq_ok_iff.1 hreply
  exact Reply.from_of_objects_eq_nil (hf a)

theorem Client.Sane.looked {f : Memory → Except ClientError α} {g : α → Reply Node}
    (h : ∀ m a, f m = .ok a → (g a).From n m) :
    Sane (σ := σ) pre (consult fun m => (f m).map g) fun reply _ m => reply.From n m := by
  refine .of_quiet (.consult _) fun reg w reply hreply _ => ?_
  obtain ⟨a, ha, rfl⟩ := map_eq_ok_iff.1 hreply
  exact h _ a ha

theorem Client.Sane.given {reply : Reply Node} (h : ∀ m, reply.From n m) :
    Sane (σ := σ) pre (pure reply) fun reply _ m => reply.From n m :=
  .of_quiet (.pure _) fun _ _ _ hreply _ => Except.ok.inj hreply ▸ h _

theorem takeOwner_sane (n : Node) :
    Sane (σ := σ) pre (takeOwner n.home) fun reply _ m => reply.From n m :=
  .looked fun _ _ hrequire => Reply.from_object (.home n (Memory.require_eq_ok_iff.1 hrequire))

theorem Leaf.getState_quiet (l : Leaf) : (l.getState remote).Quiet :=
  (Quiet.consult _).bind fun _ => .ask _ _

theorem Leaf.setState_quiet (l : Leaf) (value : Json) : (l.setState remote value).Quiet :=
  (Quiet.consult _).bind fun _ => .ask _ _

theorem Leaf.allowedValues_quiet (l : Leaf) : (l.allowedValues remote).Quiet :=
  (Quiet.consult _).bind fun _ => (Quiet.consult _).bind fun _ => .ask _ _

theorem Command.invoke_quiet (c : Command) (keywords : List (String × Json)) :
    (c.invoke remote keywords).Quiet := by
  unfold Command.invoke
  dsimp only
  split
  · exact .throw _
  · exact (Quiet.consult _).bind fun _ => (Quiet.consult _).bind fun _ => .ask _ _

namespace Container

variable (c : Container)

theorem getState_quiet : (c.getState remote).Quiet :=
  (Quiet.consult _).bind fun _ => (Quiet.ask _ _).bind fun _ => .pure _

theorem setState_quiet (state : Json) : (c.setState remote state).Quiet :=
  (Quiet.consult _).bind fun _ => .ask _ _

theorem getPropertyState_quiet (name : String) : (c.getPropertyState remote name).Quiet :=
  (Quiet.consult _).bind fun l => l.getState_quiet

theorem setPropertyState_quiet (name : String) (value : Json) :
    (c.setPropertyState remote name value).Quiet :=
  (Quiet.consult _).bind fun l => l.setState_quiet value

variable {c}

theorem offers_of_pick {wanted : Wanted} {select : Node → Option α} {m : Memory} {name : String}
    {found : α} (h : pick wanted select m c name = .ok found) :
    ∃ n, c.Offers n ∧ select n = some found := by
  unfold pick at h
  split at h
  · obtain ⟨_, -, h⟩ := bind_eq_ok_iff.1 h
    cases h
  · next n hn =>
    split at h
    · next hselect =>
      obtain rfl := Except.ok.inj h
      exact ⟨n, offers_of_lookup? hn, hselect⟩
    · obtain ⟨_, -, h⟩ := bind_eq_ok_iff.1 h
      cases h

/-- Writing to a member of a container changes at most the index of a collection of it. -/
theorem setAttribute_sane (name : String) (value : Json) :
    Sane (fun reg m => c.Fits reg m.fresh) (c.setAttribute remote name value)
      fun _ _ _ => True := by
  unfold setAttribute
  cases hlookup : c.lookup? name with
  | none => exact .of_quiet (.consult _) fun _ _ _ _ _ => trivial
  | some n =>
    cases n with
    | leaf l => exact .of_quiet (l.setState_quiet value) fun _ _ _ _ _ => trivial
    | container d => exact .of_quiet (d.setState_quiet value) fun _ _ _ _ _ => trivial
    | command k => exact .of_quiet (.consult _) fun _ _ _ _ _ => trivial
    | collection d =>
      have hsane : Sane (fun reg m => d.Fits reg m.fresh) (d.setState remote value)
          fun _ _ _ => True :=
        (Collection.setState_traced remote d value).sane fun _ _ _ _ _ _ _ => trivial
      exact hsane.weaken fun _ _ hc => hc.offers (offers_of_lookup? hlookup)

theorem pick_sane {wanted : Wanted} {select : Node → Option α} {name : String} {f : α → Node}
    (hf : ∀ n a, select n = some a → n = f a) :
    Sane (σ := σ) pre
      (consult fun m => (pick wanted select m c name).map fun a => Reply.object (f a))
      fun reply _ m => reply.From (.container c) m := by
  refine .looked fun m a ha => ?_
  obtain ⟨n, hn, hselect⟩ := offers_of_pick ha
  exact Reply.from_object (hf n a hselect ▸ .part hn)

theorem perform_sane {operation : Operation} {act : Client σ (Reply Node)}
    (h : (Node.container c).perform remote operation = some act) :
    Sane (fun reg m => c.Fits reg m.fresh) act fun reply _ m => reply.From (.container c) m := by
  cases operation with
  | self => exact Option.some.inj h ▸ .given fun _ => Reply.from_object (.self _)
  | path | typePath =>
    exact Option.some.inj h ▸ .looked fun _ _ _ => Reply.from_of_objects_eq_nil rfl
  | getState => exact Option.some.inj h ▸ .silent (getState_quiet c) fun _ => rfl
  | setState state => exact Option.some.inj h ▸ .silent (setState_quiet c state) fun _ => rfl
  | setAttribute name state =>
    exact Option.some.inj h ▸ (setAttribute_sane name state).map fun _ _ _ _ =>
      Reply.from_of_objects_eq_nil rfl
  | getProperty name =>
    exact Option.some.inj h ▸ .silent (getPropertyState_quiet c name) fun _ => rfl
  | setProperty name state =>
    exact Option.some.inj h ▸ .silent (setPropertyState_quiet c name state) fun _ => rfl
  | lookup name =>
    refine Option.some.inj h ▸ .given fun _ => ?_
    cases hlookup : c.lookup? name with
    | none => exact Reply.from_of_objects_eq_nil rfl
    | some n => exact Reply.from_object (.part (offers_of_lookup? hlookup))
  | child name => exact Option.some.inj h ▸ pick_sane fun _ _ => Node.eq_of_container?
  | collection name => exact Option.some.inj h ▸ pick_sane fun _ _ => Node.eq_of_collection?
  | property name => exact Option.some.inj h ▸ pick_sane fun _ _ => Node.eq_of_leaf?
  | command name => exact Option.some.inj h ▸ pick_sane fun _ _ => Node.eq_of_command?
  | owner | memberPath | names | entries | size | isEmpty | contains | get | create | setItem
  | delete | allowedValues | invoke => cases h

end Container

theorem Leaf.perform_sane {l : Leaf} {operation : Operation} {act : Client σ (Reply Node)}
    (h : (Node.leaf l).perform remote operation = some act) :
    Sane pre act fun reply _ m => reply.From (.leaf l) m := by
  cases operation with
  | self => exact Option.some.inj h ▸ .given fun _ => Reply.from_object (.self _)
  | path => exact Option.some.inj h ▸ .looked fun _ _ _ => Reply.from_of_objects_eq_nil rfl
  | owner => exact Option.some.inj h ▸ takeOwner_sane (.leaf l)
  | getState => exact Option.some.inj h ▸ .silent l.getState_quiet fun _ => rfl
  | setState state => exact Option.some.inj h ▸ .silent (l.setState_quiet state) fun _ => rfl
  | allowedValues => exact Option.some.inj h ▸ .silent l.allowedValues_quiet fun _ => rfl
  | _ => cases h

theorem Command.perform_sane {c : Command} {operation : Operation} {act : Client σ (Reply Node)}
    (h : (Node.command c).perform remote operation = some act) :
    Sane pre act fun reply _ m => reply.From (.command c) m := by
  cases operation with
  | self => exact Option.some.inj h ▸ .given fun _ => Reply.from_object (.self _)
  | path => exact Option.some.inj h ▸ .looked fun _ _ _ => Reply.from_of_objects_eq_nil rfl
  | owner => exact Option.some.inj h ▸ takeOwner_sane (.command c)
  | invoke keywords => exact Option.some.inj h ▸ .silent (c.invoke_quiet keywords) fun _ => rfl
  | _ => cases h

/-- Every operation of an object keeps memory sound, and what it gives comes from the object. -/
theorem Node.perform_sane {operation : Operation} {act : Client σ (Reply Node)}
    (h : n.perform remote operation = some act) :
    Sane (fun reg m => n.Fits reg m.fresh) act fun reply _ m => reply.From n m := by
  cases n with
  | container c => exact Container.perform_sane h
  | collection c =>
    exact (Collection.perform_traced h).sane fun _ _ _ _ backs _ _ => backs.objects
  | leaf l => exact Leaf.perform_sane h
  | command c => exact Command.perform_sane h

end

end SettingsTree
