import SettingsTree.Proofs.Session.Sound
import SettingsTree.Proofs.Session.Step

/-! # Worlds that callers can reach

Callers start with nothing remembered. In every world that they can reach by whatever they do,
memory is sound.
-/

namespace SettingsTree

open Client

variable {σ : Type} {remote : Remote σ}

/-! ### Sessions -/

namespace Session

/-- A new session has a number of its own, which stands for the root of its schema from then on. -/
theorem ofSchema_sane (schema : Compiled) (origin : Origin) :
    Sane (σ := σ) (fun _ _ => True) (ofSchema schema origin) fun s reg m =>
      s.root.Fits reg m.fresh := by
  intro reg w sound _
  let later : Registry :=
    { reg with root := fun n => if n = w.memory.fresh then schema.root else reg.root n }
  have agree : reg.Agree w.memory.fresh later := fun n hn => ⟨if_neg (Nat.ne_of_lt hn), rfl⟩
  have hle := Nat.le_succ w.memory.fresh
  refine ⟨later, ⟨agree, hle, rfl, rfl, sound.grow agree hle⟩, fun s hs => ?_⟩
  obtain rfl := Except.ok.inj hs
  exact ⟨Nat.lt_succ_self _, if_pos rfl⟩

/-- A path is followed from the root, if it is well-formed and begins there. -/
theorem resolve_cases (remote : Remote σ) (s : Session) (path : String) :
    (∃ rest, Path.check path = .ok () ∧ Path.parse path = ⟨s.schema.root.remote, none⟩ :: rest ∧
        s.resolve remote path = rest.foldlM (follow remote path) (.container s.root)) ∨
      ∃ fault, s.resolve remote path = throw fault := by
  unfold resolve
  split
  · exact Or.inr ⟨_, rfl⟩
  · next hcheck =>
    split
    · exact Or.inr ⟨_, rfl⟩
    · next first rest hparse =>
      split
      · exact Or.inr ⟨_, rfl⟩
      · next hfirst =>
        simp only [Bool.or_eq_true, decide_eq_true_eq, not_or, ne_eq, not_not,
          Option.not_isSome_iff_eq_none] at hfirst
        obtain ⟨type, name⟩ := first
        obtain ⟨rfl, rfl⟩ := hfirst
        exact Or.inl ⟨rest, hcheck, hparse, rfl⟩

theorem resolve_eq_foldlM (remote : Remote σ) {s : Session} {path : String} {rest : Path}
    (hcheck : Path.check path = .ok ())
    (hparse : Path.parse path = ⟨s.schema.root.remote, none⟩ :: rest) :
    s.resolve remote path = rest.foldlM (follow remote path) (.container s.root) := by
  unfold resolve
  rw [hcheck]
  simp only [hparse]
  rw [if_neg (by simp)]

/-- One step leads to an object that is as the registry has it, and that is no root. -/
theorem follow_sane (remote : Remote σ) (path : String) (n : Node) (step : Step) :
    Sane (fun reg m => n.Fits reg m.fresh) (follow remote path n step)
      fun n reg m => n.Fits reg m.fresh ∧ n.Inner := by
  rcases follow_cases remote path n step with
    ⟨c, d, name, rfl, hoffers, -, -, heq⟩ | ⟨c, m, rfl, hoffers, -, -, heq⟩ | heq
  · have hget : Sane (fun reg m => d.Fits reg m.fresh) (Node.container <$> d.get remote name)
        fun n reg m => n.Fits reg m.fresh ∧ n.Inner := by
      refine .map ((Collection.get_traced remote d name).sane
        fun member said m reg hknown sound hd => ?_) fun _ _ _ h => h
      have hmem := Keyed.mem_of_get? hknown
      obtain ⟨serial, heq, -⟩ := (sound.known hd).2 name member hmem
      exact ⟨(sound.known hd).fits hd hmem, heq ▸ d.inner_member name serial⟩
    rw [heq]
    exact hget.weaken fun _ _ hc => hc.offers hoffers
  · rw [heq]
    exact .of_quiet (.pure _) fun _ _ _ hm hc =>
      Except.ok.inj hm ▸ ⟨hc.offers hoffers, hoffers.inner⟩
  · rw [heq]
    exact .of_quiet (.throw _) fun _ _ _ hm => nomatch hm

/-- A path leads to an object that is as the registry has it, and to no root but that of the session
in which it is followed. -/
theorem resolve_sane (remote : Remote σ) (s : Session) (path : String) :
    Sane (fun reg m => s.root.Fits reg m.fresh) (s.resolve remote path)
      fun n reg m => n.Fits reg m.fresh ∧ (n = .container s.root ∨ n.Inner) := by
  have walk (steps : List Step) : ∀ n : Node,
      Sane (fun reg m => n.Fits reg m.fresh ∧ (n = .container s.root ∨ n.Inner))
        (steps.foldlM (follow remote path) n)
        fun n reg m => n.Fits reg m.fresh ∧ (n = .container s.root ∨ n.Inner) := by
    induction steps with
    | nil => exact fun n => .of_quiet (.pure _) fun _ _ _ hm hn => Except.ok.inj hm ▸ hn
    | cons step rest ih =>
      intro n
      rw [List.foldlM_cons]
      exact ((follow_sane remote path n step).weaken fun _ _ hn => hn.1).bind fun m =>
        (ih m).weaken fun _ _ hm => ⟨hm.1, Or.inr hm.2⟩
  rcases resolve_cases remote s path with ⟨rest, -, -, heq⟩ | ⟨fault, heq⟩
  · rw [heq]
    exact (walk rest _).weaken fun _ _ hroot => ⟨hroot, Or.inl rfl⟩
  · rw [heq]
    exact .of_quiet (.throw _) fun _ _ _ hm => nomatch hm

/-- The schema that a session gets from what the remote says of its own schema, with the reports
about the shipped one. -/
def choose (config : Config) (shipped : Option Compiled) :
    Except TransportError (Json × String) → List Fallback × Except ClientError Selected
  | .error fault => ([], .error (.transport fault))
  | .ok (raw, rootType) =>
    ((select raw rootType shipped config.options).1,
      (select raw rootType shipped config.options).2.mapError .schema)

/-- Connecting asks the remote once, and takes a number only if it succeeds. -/
theorem connectWith_run (remote : Remote σ) (config : Config) (shipped : Option Compiled)
    (w : World σ) :
    connectWith remote config shipped w =
      let reply := remote.call (.staticInfo config.schemaCategory) w.remote
      let chosen := choose config shipped reply.1
      match chosen.2 with
      | .error fault => ((chosen.1, .error fault), { w with remote := reply.2 })
      | .ok selected => ((chosen.1, .ok ⟨selected, w.memory.fresh⟩),
          ⟨reply.2, { w.memory with fresh := w.memory.fresh + 1 }⟩) := by
  unfold connectWith
  rw [ask_run]
  generalize remote.call (.staticInfo config.schemaCategory) w.remote = reply
  rcases reply with ⟨fault | ⟨raw, rootType⟩, s⟩
  · rfl
  · simp only [Except.mapError, choose]
    generalize select raw rootType shipped config.options = chosen
    rcases chosen with ⟨reports, fault | selected⟩ <;> rfl

theorem connectWith_sane (config : Config) (shipped : Option Compiled) :
    Sane (fun _ _ => True)
      (fun w =>
        ((connectWith remote config shipped w).1.2, (connectWith remote config shipped w).2) :
          Client σ Session)
      fun s reg m => s.root.Fits reg m.fresh := by
  intro reg w sound _
  simp only [connectWith_run]
  split
  · exact ⟨reg, .refl sound, fun _ hs => nomatch hs⟩
  · next selected _ =>
    exact ofSchema_sane (σ := σ) selected.schema selected.origin reg w sound trivial

theorem connect_sane (config : Config) (files : String → Option String) :
    Sane (fun _ _ => True) (connect remote config files)
      fun s reg m => s.root.Fits reg m.fresh := by
  unfold connect
  split
  · exact .of_quiet (.throw _) fun _ _ _ hm => nomatch hm
  · exact connectWith_sane config _

theorem connectWith_number {config : Config} {shipped : Option Compiled} {w : World σ} {s : Session}
    (h : (connectWith remote config shipped w).1.2 = .ok s) : s.number = w.memory.fresh := by
  rw [connectWith_run] at h
  revert h
  dsimp only
  generalize choose config shipped _ = chosen
  rcases chosen with ⟨reports, fault | selected⟩ <;> intro h <;> cases h
  rfl

theorem connect_number {config : Config} {files : String → Option String} {w : World σ}
    {s : Session} (h : (connect remote config files w).1 = .ok s) : s.number = w.memory.fresh := by
  cases hshipped : shippedSchema config files with
  | error fault =>
    rw [connect, hshipped] at h
    cases h
  | ok shipped =>
    rw [connect, hshipped] at h
    exact connectWith_number h

end Session

/-! ### Actions -/

namespace Memory

variable {reg later : Registry} {memory after : Memory}

/-- What an action makes of sound memory. Something is done with objects or with the remote; then a
new session may be kept, or an object, which is no root unless this root was kept before. Or else a
name is forgotten. -/
inductive Becomes (reg : Registry) (memory : Memory) : Memory → Prop
  | grown {later : Registry} {after : Memory} (grows : memory.Grows reg later after) :
      Becomes reg memory after
  | opened {later : Registry} {after : Memory} {s : Session} (grows : memory.Grows reg later after)
      (fits : s.root.Fits later after.fresh) (number : s.number = memory.fresh) (name : String) :
      Becomes reg memory (after.keepSession name s)
  | kept {later : Registry} {after : Memory} {n : Node} (grows : memory.Grows reg later after)
      (fits : n.Fits later after.fresh)
      (root : ∀ number, n.address = [.session number] → [.session number] ∈ memory.held)
      (name : String) : Becomes reg memory (after.keep name n)
  | dropped (sound : memory.Sound reg) (name : String) : Becomes reg memory (memory.drop name)

namespace Becomes

theorem sound (h : memory.Becomes reg after) : ∃ later, after.Sound later := by
  cases h with
  | grown grows => exact ⟨_, grows.sound⟩
  | opened grows fits number name => exact ⟨_, grows.sound.keepSession fits name⟩
  | kept grows fits root name => exact ⟨_, grows.sound.keep fits name⟩
  | dropped sound name => exact ⟨_, sound.drop name⟩

theorem fresh_le (h : memory.Becomes reg after) : memory.fresh ≤ after.fresh := by
  cases h with
  | grown grows | opened grows | kept grows => exact grows.fresh_le
  | dropped sound name => exact Nat.le_refl _

end Becomes

/-- Nothing owns the root of a session, so it lives only as long as it is kept. -/
theorem alive_root_iff {number : Nat} :
    memory.alive [.session number] ↔ [.session number] ∈ memory.held := by
  simp [alive, owns]

theorem mem_held_iff {a : Address} : a ∈ memory.held ↔
    (∃ entry ∈ memory.sessions, entry.2.root.address = a) ∨
      ∃ entry ∈ memory.objects, entry.2.address = a := by
  rw [held, List.mem_append, List.mem_map, List.mem_map]

theorem address_mem_held {name : String} {n : Node} (h : memory.object? name = some n) :
    n.address ∈ memory.held := by
  rw [mem_held_iff]
  unfold object? at h
  split at h
  · next s hs =>
    cases h
    exact Or.inl ⟨(name, s), Keyed.mem_of_get? hs, rfl⟩
  · exact Or.inr ⟨(name, n), Keyed.mem_of_get? h, rfl⟩

end Memory

namespace Action

variable {reg : Registry} {w : World σ}

theorem keepSession_becomes {x : Client σ Session}
    (hx : Sane (fun _ _ => True) x fun s reg m => s.root.Fits reg m.fresh)
    (number : ∀ s, (x w).1 = .ok s → s.number = w.memory.fresh) (sound : w.memory.Sound reg)
    (name : String) (reports : List Fallback) :
    w.memory.Becomes reg (keepSession name reports (x w)).2.memory := by
  obtain ⟨later, grows, hfits⟩ := hx reg w sound trivial
  rcases hrun : x w with ⟨fault | s, v⟩ <;> rw [hrun] at grows hfits number
  · exact .grown grows
  · exact .opened grows (hfits s rfl) (number s rfl) name

theorem keepObject_becomes {later : Registry} {result : Except ClientError (Reply Node) × World σ}
    (grows : w.memory.Grows reg later result.2.memory)
    (h : ∀ reply, result.1 = .ok reply → ∀ n ∈ reply.objects,
      n.Fits later result.2.memory.fresh ∧
        ∀ number, n.address = [.session number] → [.session number] ∈ w.memory.held)
    (name : Option String) : w.memory.Becomes reg (keepObject name result).2.memory := by
  rcases result with ⟨fault | reply, v⟩
  · exact .grown grows
  · unfold keepObject
    dsimp only
    split
    · next name n =>
      obtain ⟨fits, root⟩ := h _ rfl n List.mem_cons_self
      exact .kept grows fits root name
    · exact .grown grows

theorem perform_becomes (remote : Remote σ) (sound : w.memory.Sound reg) (action : Action) :
    w.memory.Becomes reg (action.perform remote w).2.memory := by
  cases action with
  | adopt name schema =>
    have number (s : Session) (hs : (Session.ofSchema (σ := σ) schema .compiled w).1 = .ok s) :
        s.number = w.memory.fresh := by
      cases hs
      rfl
    exact keepSession_becomes (Session.ofSchema_sane schema .compiled) number sound name []
  | connect name config files =>
    exact keepSession_becomes (Session.connect_sane config files) (fun _ => Session.connect_number)
      sound name []
  | connectWith name config shipped =>
    exact keepSession_becomes (Session.connectWith_sane config shipped)
      (fun _ => Session.connectWith_number) sound name _
  | drop name => exact .dropped sound name
  | compare first second =>
    unfold perform
    dsimp only
    split <;> exact .grown (.refl sound)
  | resolve session path name =>
    unfold perform
    dsimp only
    split
    · exact .grown (.refl sound)
    · next s hs =>
      have hmem := Keyed.mem_of_get? hs
      obtain ⟨later, grows, hfits⟩ :=
        Session.resolve_sane remote s path reg w sound (sound.sessions session s hmem)
      rw [map_run]
      refine keepObject_becomes grows (fun reply hreply n hn => ?_) name
      obtain ⟨m, hm, rfl⟩ := map_eq_ok_iff.1 hreply
      rw [List.mem_singleton.1 hn]
      refine ⟨(hfits m hm).1, fun number hroot => ?_⟩
      rcases (hfits m hm).2 with rfl | inner
      · exact Memory.mem_held_iff.2 (Or.inl ⟨(session, s), hmem, hroot⟩)
      · exact absurd hroot (inner number)
  | apply object operation name =>
    unfold perform
    dsimp only
    split
    · exact .grown (.refl sound)
    · next n hn =>
      split
      · exact .grown (.refl sound)
      · next act hact =>
        have fits := sound.object? hn
        obtain ⟨later, grows, hfrom⟩ := Node.perform_sane hact reg w sound fits
        have fits' := Node.Fits.mono fits grows.agree grows.fresh_le
        refine keepObject_becomes grows (fun reply hreply m hm => ?_) name
        have hyields := hfrom reply hreply m hm
        refine ⟨hyields.fits grows.sound fits', fun number hroot => ?_⟩
        rcases hyields.root grows.sound fits' hroot with rfl | alive
        · exact hroot ▸ Memory.address_mem_held hn
        · exact grows.held ▸ Memory.alive_root_iff.1 alive

theorem performAll_cons (remote : Remote σ) (action : Action) (rest : List Action) (w : World σ) :
    performAll remote (action :: rest) w =
      ((action.perform remote w).1 :: (performAll remote rest (action.perform remote w).2).1,
        (performAll remote rest (action.perform remote w).2).2) :=
  mapM_cons_run (perform remote) action rest w

theorem performAll_keeps {motive : World σ → Prop}
    (step : ∀ action w, motive w → motive (perform remote action w).2) (actions : List Action)
    {w : World σ} (h : motive w) : motive (performAll remote actions w).2 := by
  induction actions generalizing w with
  | nil => exact h
  | cons action rest ih =>
    rw [performAll_cons]
    exact ih (step action w h)

end Action

/-- Callers that started with nothing remembered got here. -/
def World.Reachable (remote : Remote σ) (w : World σ) : Prop :=
  ∃ s actions, (Action.performAll remote actions { remote := s }).2 = w

theorem World.Reachable.sound {w : World σ} (h : w.Reachable remote) :
    ∃ reg, w.memory.Sound reg := by
  obtain ⟨s, actions, rfl⟩ := h
  have reg : Registry := ⟨fun _ => .leaf ⟨"", "", 0⟩ .string, fun _ => ""⟩
  exact Action.performAll_keeps (motive := fun w => ∃ reg, w.memory.Sound reg)
    (fun action _ ⟨_, sound⟩ => (Action.perform_becomes remote sound action).sound) actions
    ⟨reg, Memory.sound_empty reg⟩

/-- Callers can get at an object: they keep it, or an object that they can get at gives it. -/
inductive Memory.Reaches (memory : Memory) : Node → Prop
  | kept {name : String} {n : Node} (h : memory.object? name = some n) : Reaches memory n
  | given {n m : Node} (h : Reaches memory n) (yields : n.Yields memory m) : Reaches memory m

theorem Memory.Reaches.fits {memory : Memory} {n : Node} (h : memory.Reaches n) {reg : Registry}
    (sound : memory.Sound reg) : n.Fits reg memory.fresh := by
  induction h with
  | kept h => exact sound.object? h
  | given _ yields ih => exact yields.fits sound ih

end SettingsTree
