import SettingsTree.Proofs.Session.Keeper
import SettingsTree.Proofs.Session.Unindexed

/-! # Callers who keep everything, and clients that remember nothing

The moves of callers who keep everything are done a second time with clients that remember nothing.
Each move, and so each run of moves, comes to the same answers, leaves the remote in the same state
and gives the same objects, but for their numbers.
-/

namespace SettingsTree

/-! ### The same callers with clients that remember nothing -/

namespace Direct

variable {σ : Type} (remote : Remote σ)

/-- The view of an object. Its path is always at hand. -/
def view (n : Node) : View :=
  ⟨n.kind, n.descriptor, n.container?.bind Container.memberName?, .ok n.place⟩

/-- Open a session over what was chosen. The state is that of the remote, together with the objects
that callers got. -/
def openSession (reports : List Fallback) (chosen : Except ClientError Selected) :
    StateM (σ × List Node) Outcome := fun s =>
  (.connected reports chosen, s.1, match chosen with
    | .ok selected => s.2 ++ [.container (.root 0 selected.schema.root)]
    | .error _ => s.2)

def choose (config : Config) (shipped : Option Compiled) :
    StateM σ (List Fallback × Except ClientError Selected) := fun s =>
  let reply := remote.call (.staticInfo config.schemaCategory) s
  (Session.choose config shipped reply.1, reply.2)

def attempt : Option (Direct σ (Reply Node)) → StateM (σ × List Node) Outcome
  | none => fun s => (.unsuitable, s)
  | some act => fun s =>
    match act s.1 with
    | (.ok reply, t) => (.replied (reply.map view), t, s.2 ++ reply.objects)
    | (.error fault, t) => (.failed fault, t, s.2)

def move : Move → StateM (σ × List Node) Outcome
  | .adopt schema => openSession [] (.ok ⟨schema, .compiled⟩)
  | .connect config files =>
    match Session.shippedSchema config files with
    | .error fault => openSession [] (.error (.schema fault))
    | .ok shipped => fun s =>
      let made := choose remote config shipped s.1
      openSession [] made.1.2 (made.2, s.2)
  | .connectWith config shipped => fun s =>
    let made := choose remote config shipped s.1
    openSession made.1.1 made.1.2 (made.2, s.2)
  | .browse handle => fun s =>
    match s.2[handle]? with
    | none => (.unknown, s)
    | some n => attempt (n.browse.map pure) s
  | .use handle operation => fun s =>
    match s.2[handle]? with
    | none => (.unknown, s)
    | some n => attempt (perform remote n operation) s

def moveAll (moves : List Move) : StateM (σ × List Node) (List Outcome) := moves.mapM (move remote)

end Direct

/-- The state of the remote, and the objects that callers keep, without numbers. -/
def World.bare {σ : Type} (w : World σ) : σ × List Node :=
  (w.remote, w.memory.handles.map Node.anonymous)

/-- An anonymous object looks like the one that it stands for, where that one can be reached. -/
theorem Node.view_anonymous {n : Node} {memory : Memory} (h : n.home.Rooted memory) :
    Direct.view n.anonymous = n.view memory := by
  rw [Direct.view, view, path_of_rooted h, kind_anonymous, descriptor_anonymous, place_anonymous,
    container?_anonymous]
  cases n.container? with
  | none => rfl
  | some c => simp

/-! ### Parts of a container -/

theorem Container.parts_anonymous (c : Container) :
    c.anonymous.parts = c.parts.map Node.anonymous := by
  rw [parts, parts, leaves_anonymous, children_anonymous, commands_anonymous]
  simp [Function.comp_def, Node.anonymous]

theorem Node.browse_anonymous (n : Node) :
    n.anonymous.browse = n.browse.map (Reply.map Node.anonymous) := by
  cases n with
  | container c =>
    change Node.browse (.container c.anonymous) = _
    simp [browse, Container.parts_anonymous, Reply.map, Function.comp_def]
  | collection | leaf | command => rfl

section

open Client

variable {σ : Type} (n : Node)

theorem Node.browse_mirrored :
    n.Mirrored (σ := σ) (n.browse.map pure) (n.anonymous.browse.map pure) := by
  rw [browse_anonymous]
  cases n.browse with
  | none => exact .none
  | some reply => exact .some (.pure fun _ _ => trivial)

end

/-! ### One move -/

section

open Client

variable {σ : Type} {remote : Remote σ} {w : World σ}

namespace Move

theorem keepSession_bare (reports : List Fallback) (made : Except ClientError Session × World σ) :
    Direct.openSession reports (made.1.map Session.toSelected) made.2.bare =
      ((keepSession reports made).1, (keepSession reports made).2.bare) := by
  obtain ⟨fault | s, v⟩ := made
  · rfl
  · simp only [Direct.openSession, keepSession, World.bare, Memory.handles_hold, List.map_append]
    rfl

/-- Connecting asks the remote and chooses a schema; it leaves the objects alone. -/
theorem connectWith_bare (remote : Remote σ) (config : Config) (shipped : Option Compiled)
    (w : World σ) :
    let made := Session.connectWith remote config shipped w
    let chosen := Direct.choose remote config shipped w.bare.1
    chosen.1.1 = made.1.1 ∧ ∀ reports,
      Direct.openSession reports chosen.1.2 (chosen.2, w.bare.2) =
        ((keepSession reports (made.1.2, made.2)).1,
          (keepSession reports (made.1.2, made.2)).2.bare) := by
  intro made chosen
  have hchosen : chosen = ((made.1.1, made.1.2.map Session.toSelected), made.2.bare.1) ∧
      made.2.bare.2 = w.bare.2 := by
    dsimp only [made, chosen]
    rw [Session.connectWith_run, Direct.choose, World.bare]
    dsimp only
    generalize Session.choose config shipped _ = chosen
    obtain ⟨reports, fault | selected⟩ := chosen
    · exact ⟨rfl, rfl⟩
    · exact ⟨rfl, rfl⟩
  obtain ⟨hchosen, hhandles⟩ := hchosen
  rw [hchosen, ← hhandles]
  exact ⟨rfl, fun reports => keepSession_bare reports (made.1.2, made.2)⟩

theorem attempt_bare {n : Node} {act : Option (Client σ (Reply Node))}
    {reference : Option (Direct σ (Reply Node))} (hmirrored : n.Mirrored act reference)
    (hsane : ∀ x, act = some x → Sane (fun reg m => n.Fits reg m.fresh) x
      fun reply _ m => reply.From n m)
    (steady : w.memory.Steady) (hn : n ∈ w.memory.handles) :
    Direct.attempt reference w.bare = ((attempt act w).1, (attempt act w).2.bare) ∧
      (attempt act w).2.memory.Steady := by
  cases hmirrored with
  | none => exact ⟨rfl, steady⟩
  | @some x y hxy =>
    have hx := hsane x rfl
    have steady' := keepReply_steady hx steady hn
    refine ⟨?_, steady'⟩
    obtain ⟨reg, sound⟩ := steady.sound
    have hfits := sound.handles hn
    obtain ⟨later, grows, -⟩ := hx reg w sound hfits
    have heq : y w.bare.1 = ((x w).1.map (Reply.map Node.anonymous), (x w).2.remote) :=
      (hxy w ⟨steady.anchored n hn, reg, sound, hfits⟩).1
    have hobjects : w.bare.2 = (x w).2.bare.2 := by rw [World.bare, World.bare, grows.handles]
    dsimp only [Direct.attempt, attempt]
    rw [heq, hobjects]
    rcases hrun : x w with ⟨fault | reply, v⟩ <;> rw [hrun] at steady'
    · rfl
    · have hviews : (reply.map Node.anonymous).map Direct.view =
          reply.map (Node.view (v.memory.hold reply.objects)) := by
        rw [Reply.map_map]
        refine Reply.map_congr fun m hm => Node.view_anonymous (steady'.anchored m ?_).rooted
        rw [keepReply, Memory.handles_hold]
        exact List.mem_append_right _ hm
      simp only [Except.map, keepReply, World.bare, Memory.handles_hold, List.map_append,
        Reply.objects_map, hviews]

theorem handle_bare (w : World σ) (handle : Nat) :
    w.bare.2[handle]? = w.memory.handles[handle]?.map Node.anonymous := List.getElem?_map

/-- A move comes to the same, and everything that is kept is anchored afterwards. -/
theorem perform_bare (remote : Remote σ) (steady : w.memory.Steady) (move : Move) :
    Direct.move remote move w.bare = ((move.perform remote w).1, (move.perform remote w).2.bare) ∧
      (move.perform remote w).2.memory.Steady := by
  cases move with
  | adopt schema =>
    exact ⟨keepSession_bare [] (Session.ofSchema schema .compiled w),
      keepSession_steady (Session.ofSchema_sane schema .compiled) steady []⟩
  | connect config files =>
    refine ⟨?_, keepSession_steady (Session.connect_sane config files) steady []⟩
    dsimp only [Direct.move, perform, Session.connect]
    cases Session.shippedSchema config files with
    | error fault => exact keepSession_bare [] (.error (.schema fault), w)
    | ok shipped => exact (connectWith_bare remote config shipped w).2 []
  | connectWith config shipped =>
    refine ⟨?_, keepSession_steady (Session.connectWith_sane config shipped) steady _⟩
    obtain ⟨hreports, hopen⟩ := connectWith_bare remote config shipped w
    dsimp only [Direct.move, perform]
    rw [hreports]
    exact hopen _
  | browse handle =>
    dsimp only [Direct.move, perform]
    rw [handle_bare]
    cases hn : w.memory.handles[handle]? with
    | none => exact ⟨rfl, steady⟩
    | some n =>
      exact attempt_bare n.browse_mirrored (fun x hx => n.browse_sane hx) steady
        (List.mem_of_getElem? hn)
  | use handle operation =>
    dsimp only [Direct.move, perform]
    rw [handle_bare]
    cases hn : w.memory.handles[handle]? with
    | none => exact ⟨rfl, steady⟩
    | some n =>
      exact attempt_bare (n.perform_mirrored operation) (fun x hx => Node.perform_sane hx) steady
        (List.mem_of_getElem? hn)

/-! ### Runs -/

/-- A run comes to the same, and everything that is kept is anchored afterwards. -/
theorem performAll_bare (remote : Remote σ) (steady : w.memory.Steady) (moves : List Move) :
    Direct.moveAll remote moves w.bare =
        ((performAll remote moves w).1, (performAll remote moves w).2.bare) ∧
      (performAll remote moves w).2.memory.Steady := by
  induction moves generalizing w with
  | nil => exact ⟨rfl, steady⟩
  | cons first rest ih =>
    obtain ⟨hfirst, steady'⟩ := perform_bare remote steady first
    obtain ⟨hrest, steady''⟩ := ih steady'
    rw [performAll, mapM_cons_run, Direct.moveAll, mapM_cons_run, hfirst]
    rw [Direct.moveAll] at hrest
    rw [hrest]
    exact ⟨rfl, steady''⟩

end Move

end

end SettingsTree
