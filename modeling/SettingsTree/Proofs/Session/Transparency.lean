import Mathlib
import SettingsTree.Proofs.Session.Simulation

/-! # The index does not show

Callers who keep everything, and who go from object to object by operations, cannot tell from any
answer or from any call to the remote that clients keep indexes. Only whether two objects are one
and the same, and the state and size of an index in the description of a collection, tell of it;
neither is an operation.
-/

namespace SettingsTree

/-! ### What the remote lists -/

/-- What comes of an enumeration, where the function says what is made of the names. -/
def Outcome.heard (told : List String → Outcome) : Except TransportError (List String) → Outcome
  | .ok listed => told listed
  | .error fault => .failed (.transport fault)

namespace Collection

def memberView (c : Collection) (name : String) : View :=
  ⟨.container, c.descriptor.template?.getD c.descriptor, some name, .ok (c.memberPlace name)⟩

/-- What an operation that asks which members there are comes to, where the remote lists them. -/
def telling (c : Collection) : Operation → Option (List String → Outcome)
  | .names => some fun names => .replied (.names names)
  | .entries => some fun names =>
    .replied (.entries (names.map fun name => (name, c.memberView name)))
  | .size => some fun names => .replied (.size names.length)
  | .isEmpty => some fun names => .replied (.flag (names.length = 0))
  | .contains name => some fun names => .replied (.flag (names.contains name))
  | .get name => some fun names =>
    if names.contains name then .replied (.object (c.memberView name))
    else .failed (.path (.noSuchObject c.place name))
  | _ => none

theorem telling_anonymous (c : Collection) (operation : Operation) :
    c.anonymous.telling operation = c.telling operation := by
  cases operation <;> simp [telling, memberView]

end Collection

namespace Direct

variable {σ : Type} {remote : Remote σ} {c : Collection} {operation : Operation}
  {told : List String → Outcome}

theorem attempt_ok {act : Direct σ (Reply Node)} {s : σ × List Node} {t : σ} {reply : Reply Node}
    (h : act s.1 = (.ok reply, t)) :
    attempt (some act) s = (.replied (reply.map view), t, s.2 ++ reply.objects) := by
  simp only [attempt, h]

theorem attempt_error {act : Direct σ (Reply Node)} {s : σ × List Node} {t : σ}
    {fault : ClientError} (h : act s.1 = (.error fault, t)) :
    attempt (some act) s = (.failed fault, t, s.2) := by
  simp only [attempt, h]

section

variable {s t : σ} {listed : List String} (hnames : names remote c s = (.ok listed, t))

include hnames

theorem entries_run :
    entries remote c s = (.ok (listed.map fun name => (name, c.member name 0)), t) := by
  rw [entries, Client.bind_run_state, hnames]
  rfl

theorem size_run : size remote c s = (.ok listed.length, t) := by
  rw [size, Client.bind_run_state, hnames]
  rfl

theorem isEmpty_run : isEmpty remote c s = (.ok (listed.length = 0), t) := by
  rw [isEmpty, Client.bind_run_state, size_run hnames]
  rfl

theorem contains_run (name : String) :
    contains remote c name s = (.ok (listed.contains name), t) := by
  rw [contains, Client.bind_run_state, hnames]
  rfl

theorem get_run (name : String) :
    get remote c name s = (if listed.contains name then .ok (c.member name 0)
      else .error (.path (.noSuchObject c.place name)), t) := by
  rw [get, Client.bind_run_state, contains_run hnames]
  cases listed.contains name <;> rfl

theorem attempt_listed (h : c.telling operation = some told) (handles : List Node) :
    let next := attempt (perform remote (.collection c) operation) (s, handles)
    next.2.1 = t ∧ next.1 = told listed := by
  have replied {act : Direct σ (Reply Node)} {reply : Reply Node} {outcome : Outcome}
      (hact : act s = (.ok reply, t)) (houtcome : .replied (reply.map view) = outcome) :
      (attempt (some act) (s, handles)).2.1 = t ∧
        (attempt (some act) (s, handles)).1 = outcome := by
    rw [attempt_ok (s := (s, handles)) hact]
    exact ⟨rfl, houtcome⟩
  cases operation with
  | names =>
    cases h
    exact replied (by rw [Client.map_run_state, hnames]; rfl) rfl
  | entries =>
    cases h
    refine replied (by rw [Client.map_run_state, entries_run hnames]; rfl) ?_
    simp only [Reply.map, List.map_map]
    rfl
  | size =>
    cases h
    exact replied (by rw [Client.map_run_state, size_run hnames]; rfl) rfl
  | isEmpty =>
    cases h
    exact replied (by rw [Client.map_run_state, isEmpty_run hnames]; rfl) rfl
  | contains name =>
    cases h
    exact replied (by rw [Client.map_run_state, contains_run hnames]; rfl) rfl
  | get name =>
    cases h
    have hget := get_run hnames name
    dsimp only
    cases hfound : listed.contains name with
    | false =>
      rw [hfound] at hget
      have hact : ((fun member => Reply.object (Node.container member)) <$> get remote c name) s =
          (.error (.path (.noSuchObject c.place name)), t) := by
        rw [Client.map_run_state, hget]
        rfl
      have hfailed := attempt_error (s := (s, handles)) hact
      exact ⟨congrArg (·.2.1) hfailed, congrArg (·.1) hfailed⟩
    | true =>
      rw [hfound] at hget
      exact replied (by rw [Client.map_run_state, hget]; rfl) rfl
  | _ => cases h

end

theorem attempt_unlisted {s t : σ} {fault : ClientError}
    (hnames : names remote c s = (.error fault, t)) (h : c.telling operation = some told)
    (handles : List Node) :
    attempt (perform remote (.collection c) operation) (s, handles) =
      (.failed fault, t, handles) := by
  cases operation <;> cases h <;>
    simp [attempt, perform, onCollection, entries, size, isEmpty, contains, get,
      Client.map_run_state, Client.bind_run_state, hnames, Except.map]

/-- An operation that asks which members there are enumerates them, once, and tells what it heard.
-/
theorem attempt_telling (remote : Remote σ) (h : c.telling operation = some told) (s : σ)
    (handles : List Node) :
    let listing := remote.call (.memberNames c.place) s
    let next := attempt (perform remote (.collection c) operation) (s, handles)
    next.2.1 = listing.2 ∧ next.1 = .heard told listing.1 := by
  have hnames : names remote c s =
    ((remote.call (.memberNames c.place) s).1.mapError .transport,
      (remote.call (.memberNames c.place) s).2) := rfl
  generalize remote.call (.memberNames c.place) s = listing at hnames
  obtain ⟨fault | listed, t⟩ := listing
  · have hfailed := attempt_unlisted hnames h handles
    exact ⟨congrArg (·.2.1) hfailed, congrArg (·.1) hfailed⟩
  · exact attempt_listed hnames h handles

end Direct

/-! ### The index does not show -/

/-- Over every remote, whatever callers do who keep everything that they get: all answers, all calls
to the remote, the state that the remote is left in and the objects, but for their numbers, are
those of clients that remember nothing. An operation that asks which members a collection has
enumerates them then and there, and tells what the remote lists at that moment. -/
theorem index_transparent {σ : Type} (remote : Remote σ) (s : σ) (moves : List Move) :
    let run := Move.performAll remote.recorded moves { remote := ([], s) }
    let direct := Direct.moveAll remote.recorded moves (([], s), [])
    run.1 = direct.1 ∧ run.2.bare = direct.2 ∧
      ∀ handle c operation told, run.2.memory.handles[handle]? = some (.collection c) →
        c.telling operation = some told →
        let listing := remote.call (.memberNames c.place) run.2.remote.2
        let next := (Move.use handle operation).perform remote.recorded run.2
        next.2.remote = (.memberNames c.place :: run.2.remote.1, listing.2) ∧
          next.1 = .heard told listing.1 := by
  intro run direct
  obtain ⟨hrun, steady⟩ := Move.performAll_bare (w := { remote := ([], s) }) remote.recorded
    Memory.steady_empty moves
  have hdirect : direct = (run.1, run.2.bare) := hrun
  refine ⟨(congrArg (·.1) hdirect).symm, (congrArg (·.2) hdirect).symm, ?_⟩
  intro handle c operation told hhandle htold listing next
  have hnext : Direct.move remote.recorded (.use handle operation) run.2.bare =
      (next.1, next.2.bare) := (Move.perform_bare remote.recorded steady _).1
  have hmove : Direct.move remote.recorded (.use handle operation) run.2.bare =
      Direct.attempt (Direct.perform remote.recorded (.collection c.anonymous) operation)
        run.2.bare := by
    dsimp only [Direct.move]
    rw [Move.handle_bare, hhandle]
    rfl
  have htold' := (c.telling_anonymous operation).trans htold
  have htelling := Direct.attempt_telling remote.recorded htold' run.2.bare.1 run.2.bare.2
  rw [c.place_anonymous] at htelling
  have hattempt := hmove.symm.trans hnext
  exact ⟨(congrArg (·.2.1) hattempt).symm.trans htelling.1,
    (congrArg (·.1) hattempt).symm.trans htelling.2⟩

/-! ### A member that another session deleted -/

namespace Shared

def template : Descriptor := .container ⟨"Items", "items", 0⟩ [] [] []

def schema : Compiled :=
  ⟨"", "", "Root",
    .container ⟨"Root", "root", 0⟩ [] [.collection ⟨"Items", "items", 0⟩ template] []⟩

/-- Two sessions look at one collection: the first creates a member, the second gets it, and the
first deletes it again. -/
def moves : List Move := [.adopt schema, .adopt schema, .use 0 (.collection "items"),
  .use 1 (.collection "items"), .use 2 (.create "a"), .use 3 (.get "a"), .use 2 (.delete "a")]

def world : World (List Call × List (List String)) :=
  (Move.performAll Remote.scripted.recorded moves { remote := ([], [["a"]]) }).2

def items : Collection := ⟨.root 1 schema.root, 0, .collection ⟨"Items", "items", 0⟩ template⟩

end Shared

/-- The second session still has the member in its index, but the member is gone for it as well. -/
theorem index_transparent_shared :
    (∃ member, Keyed.get? "a" (Shared.items.known Shared.world.memory) = some member) ∧
      Shared.world.memory.handles[3]? = some (.collection Shared.items) ∧
      ((Move.use 3 (.get "a")).perform Remote.scripted.recorded Shared.world).1 =
        .failed (.path (.noSuchObject Shared.items.place "a")) := by
  have hknown : ∃ member, Keyed.get? "a" (Shared.items.known Shared.world.memory) = some member :=
    ⟨_, by cbv⟩
  have hhandle : Shared.world.memory.handles[3]? = some (.collection Shared.items) := by cbv
  have hlisted : (Remote.scripted.call (.memberNames Shared.items.place) Shared.world.remote.2).1 =
      .ok [] := by cbv
  refine ⟨hknown, hhandle, ?_⟩
  unfold Shared.world at hhandle hlisted ⊢
  have h := (index_transparent .scripted [["a"]] Shared.moves).2.2 3 Shared.items (.get "a") _
    hhandle rfl
  exact h.2.trans (congrArg _ hlisted)

end SettingsTree
