import SettingsTree.Proofs.Session.Ended
import SettingsTree.Proofs.Session.Linked

/-! # Objects without a session

An object needs the path of its container for all that it asks of the remote, and a path is put
together down from the root of the session. Once the session has ended, no object but the root has a
path, whatever else above it lives. Then an object still tells what the schema and the owner next to
it tell, and everything else fails before the remote is asked.
-/

namespace SettingsTree

open Client

/-! ### What needs no session -/

/-- What comes of an operation of a container that needs no path: the members that are declared are
told, and a collection is given no members to write. -/
def Container.idle? (c : Container) : Operation → Option (Except ClientError (Reply Node))
  | .lookup name => some (.ok (((c.lookup? name).map .object).getD .nothing))
  | .child name => ((c.lookup? name).bind Node.container?).map fun found =>
    .ok (.object (.container found))
  | .collection name => ((c.lookup? name).bind Node.collection?).map fun found =>
    .ok (.object (.collection found))
  | .property name => ((c.lookup? name).bind Node.leaf?).map fun found =>
    .ok (.object (.leaf found))
  | .command name => ((c.lookup? name).bind Node.command?).map fun found =>
    .ok (.object (.command found))
  | .setAttribute name (.obj []) => ((c.lookup? name).bind Node.collection?).map fun _ => .ok .done
  | _ => none

theorem Container.idle?_setAttribute {c : Container} {name : String} {state : Json}
    (h : ∀ d, c.lookup? name = some (.collection d) → state ≠ .obj []) :
    c.idle? (.setAttribute name state) = none := by
  by_cases hempty : state = .obj []
  · subst hempty
    rw [idle?, Option.map_eq_none_iff, Option.bind_eq_none_iff]
    intro n hlookup
    cases n with
    | collection d => exact absurd rfl (h d hlookup)
    | container | leaf | command => rfl
  · unfold idle?
    split <;> simp_all

/-- What comes of an operation of a collection that needs no path: no members are written, or the
name of a new member is refused. -/
def Collection.idle? : Operation → Option (Except ClientError (Reply Node))
  | .setState (.obj []) => some (.ok .done)
  | .create name =>
    match Path.checkObjectName name with
    | .error fault => some (.error (.path fault))
    | .ok () => none
  | _ => none

theorem Collection.idle?_setState {state : Json} (h : state ≠ .obj []) :
    idle? (.setState state) = none := by
  unfold idle?
  split <;> simp_all

/-- What comes of an operation of a command that needs no path: its arguments are refused. -/
def Command.idle? (c : Command) : Operation → Option (Except ClientError (Reply Node))
  | .invoke keywords =>
    (c.signature.refusal? c.label.localName (Keyed.ofList keywords)).map fun fault =>
      .error (.argument fault)
  | _ => none

/-- What comes of an operation of an object that needs no path. The object gives itself, and the
owner next to it if that lives. -/
def Node.idle? (memory : Memory) (n : Node) : Operation → Option (Except ClientError (Reply Node))
  | .self => some (.ok (.object n))
  | .owner =>
    if memory.alive n.home.address then some (.ok (.object (.container n.home))) else none
  | operation =>
    match n with
    | .container c => c.idle? operation
    | .collection _ => Collection.idle? operation
    | .leaf _ => none
    | .command c => c.idle? operation

/-! ### Paths -/

section

variable {σ α : Type} {remote : Remote σ} {memory : Memory} {number : Nat}

theorem Memory.require_of_not_alive {a : Address} (h : ¬ memory.alive a) :
    memory.require a = .error .detached := if_neg h

theorem joined_detached (gone : ¬ memory.alive [.session number]) {owner : Container}
    (ih : owner.address ≠ [.session number] → owner.path memory = .error .detached)
    (f : String → Except ClientError α) :
    (do memory.require owner.address
        f (← owner.path memory)) = .error .detached := by
  by_cases alive : memory.alive owner.address
  · have hne : owner.address ≠ [.session number] := by
      intro heq
      exact gone (heq ▸ alive)
    rw [ih hne, Memory.require, if_pos alive]
    rfl
  · rw [Memory.require_of_not_alive alive]
    rfl

namespace Container

variable {c : Container}

/-- Without the root of its session, no other container has a path. -/
theorem path_detached (gone : ¬ memory.alive [.session number]) (hsession : c.session = number)
    (hne : c.address ≠ [.session number]) : c.path memory = .error .detached := by
  induction c with
  | root session d =>
    obtain rfl : session = number := hsession
    exact absurd rfl hne
  | child parent position d ih => exact joined_detached gone (ih hsession) _
  | member owner position d name serial ih =>
    rw [path]
    by_cases alive : memory.alive (Collection.mk owner position d).address
    · rw [Memory.require, if_pos alive]
      exact joined_detached gone (ih hsession) _
    · rw [Memory.require_of_not_alive alive]
      rfl

theorem reach_detached (gone : ¬ memory.alive [.session number]) (hsession : c.session = number)
    (f : String → Except ClientError α) :
    (do memory.require c.address
        f (← c.path memory)) = .error .detached :=
  joined_detached gone (path_detached gone hsession) f

end Container

theorem Node.path_detached {n : Node} (gone : ¬ memory.alive [.session number])
    (hsession : n.home.session = number) (hne : n.address ≠ [.session number]) :
    n.path memory = .error .detached := by
  cases n with
  | container c => exact Container.path_detached gone hsession hne
  | collection | leaf | command => exact Container.reach_detached gone hsession _

/-! ### Operations -/

variable {w : World σ}

namespace Client

/-- The operation finds that the object has no session, and does nothing. -/
def Detached (w : World σ) (x : Client σ α) : Prop := x w = (.error .detached, w)

variable {β : Type} {x : Client σ α}

theorem Detached.bind (h : x.Detached w) (f : α → Client σ β) : (x >>= f).Detached w :=
  bind_run_error h

theorem Detached.map (h : x.Detached w) (f : α → β) : (f <$> x).Detached w := by
  rw [Detached, map_run, h]
  rfl

theorem Detached.look {f : Memory → Except ClientError α} (h : f w.memory = .error .detached)
    (g : α → β) : (consult fun memory => (f memory).map g : Client σ β).Detached w := by
  rw [Detached, consult_run, h]
  rfl

end Client

open Client

theorem Container.ask_detached {c : Container} (gone : ¬ w.memory.alive [.session number])
    (hsession : c.session = number) (f : String → Client σ α) :
    (do let _ ← consult (·.require c.address)
        let path ← consult c.path
        f path).Detached w := by
  by_cases alive : w.memory.alive c.address
  · have hne : c.address ≠ [.session number] := by
      intro heq
      exact gone (heq ▸ alive)
    have required : w.memory.require c.address = .ok () := Memory.require_eq_ok_iff.2 alive
    rw [Detached, consult_bind_ok required]
    exact consult_bind_error (path_detached gone hsession hne)
  · exact consult_bind_error (Memory.require_of_not_alive alive)

theorem takeOwner_run (owner : Container) (w : World σ) :
    takeOwner owner w =
      ((if w.memory.alive owner.address then some (.ok (.object (.container owner)))
        else none).getD (.error .detached), w) := by
  rw [takeOwner, consult_run, Memory.require]
  split <;> rfl

variable {operation : Operation} {act : Client σ (Reply Node)}

theorem Leaf.perform_detached {l : Leaf} (gone : ¬ w.memory.alive [.session number])
    (hsession : l.owner.session = number)
    (h : (Node.leaf l).perform remote operation = some act) :
    act w = (((Node.leaf l).idle? w.memory operation).getD (.error .detached), w) := by
  have hpath : l.path w.memory = .error .detached := Container.reach_detached gone hsession _
  cases operation with
  | self => exact Option.some.inj h ▸ rfl
  | path => exact Option.some.inj h ▸ Detached.look hpath _
  | owner => exact Option.some.inj h ▸ takeOwner_run l.owner w
  | getState | setState => exact Option.some.inj h ▸ Detached.map (consult_bind_error hpath) _
  | allowedValues =>
    exact Option.some.inj h ▸ Detached.map (Container.ask_detached gone hsession _) _
  | _ => cases h

theorem Command.perform_detached {c : Command} (gone : ¬ w.memory.alive [.session number])
    (hsession : c.owner.session = number)
    (h : (Node.command c).perform remote operation = some act) :
    act w = (((Node.command c).idle? w.memory operation).getD (.error .detached), w) := by
  cases operation with
  | self => exact Option.some.inj h ▸ rfl
  | path => exact Option.some.inj h ▸ Detached.look (Container.reach_detached gone hsession _) _
  | owner => exact Option.some.inj h ▸ takeOwner_run c.owner w
  | invoke keywords =>
    obtain rfl := Option.some.inj h
    change _ = ((c.idle? (.invoke keywords)).getD (.error .detached), w)
    rw [idle?, invoke]
    cases c.signature.refusal? c.label.localName (Keyed.ofList keywords) with
    | some fault => rfl
    | none =>
      have hask := Container.ask_detached gone hsession fun owner => ask remote
        (.execute owner c.label.remote (c.signature.payload owner (Keyed.ofList keywords)))
      exact hask.map Reply.state
  | _ => cases h

namespace Collection

variable {c : Collection} (gone : ¬ w.memory.alive [.session number])
  (hsession : c.owner.session = number)

include gone hsession

theorem path_detached : c.path w.memory = .error .detached :=
  Container.reach_detached gone hsession _

theorem refresh_detached : (c.refresh remote).Detached w :=
  consult_bind_error (path_detached gone hsession)

theorem create_run_detached (name : String) : c.create remote name w =
    (match Path.checkObjectName name with
      | .error fault => .error (.path fault)
      | .ok () => .error .detached, w) := by
  rw [create]
  cases Path.checkObjectName name with
  | error fault => rfl
  | ok done => exact consult_bind_error (path_detached gone hsession)

/-- To write the state of a member takes a path, and so does the refusal of a state that is no
object. -/
theorem setState_detached {state : Json} (h : state ≠ .obj []) :
    (c.setState remote state).Detached w := by
  have hpath := path_detached gone hsession
  cases state with
  | obj members =>
    cases members with
    | nil => exact absurd rfl h
    | cons entry rest =>
      have hrefresh : (c.refresh remote).Detached w := refresh_detached gone hsession
      have hitem : (c.setItem remote entry.1 entry.2).Detached w := (hrefresh.bind _).bind _
      exact hitem.bind fun _ => rest.forM fun entry => c.setItem remote entry.1 entry.2
  | _ => exact consult_bind_error hpath

theorem perform_detached (h : (Node.collection c).perform remote operation = some act) :
    act w = (((Node.collection c).idle? w.memory operation).getD (.error .detached), w) := by
  have hpath := path_detached gone hsession
  have hrefresh : (c.refresh remote).Detached w := refresh_detached gone hsession
  cases operation with
  | self => exact Option.some.inj h ▸ rfl
  | path => exact Option.some.inj h ▸ Detached.look hpath _
  | typePath =>
    refine Option.some.inj h ▸ Detached.look ?_ _
    rw [typePath, hpath]
    rfl
  | owner => exact Option.some.inj h ▸ takeOwner_run c.owner w
  | getState => exact Option.some.inj h ▸ Detached.map (consult_bind_error hpath) _
  | setState state =>
    obtain rfl := Option.some.inj h
    by_cases hempty : state = .obj []
    · rw [hempty]
      rfl
    · have hnone : idle? (.setState state) = none := idle?_setState hempty
      change _ = ((idle? (.setState state)).getD (.error .detached), w)
      rw [hnone]
      exact (setState_detached gone hsession hempty).map _
  | memberPath name =>
    exact Option.some.inj h ▸ Detached.look (Container.reach_detached gone hsession _) _
  | names => exact Option.some.inj h ▸ hrefresh.map _
  | entries | size | contains => exact Option.some.inj h ▸ (hrefresh.bind _).map _
  | isEmpty | get | setItem => exact Option.some.inj h ▸ ((hrefresh.bind _).bind _).map _
  | create name =>
    obtain rfl := Option.some.inj h
    change _ = ((idle? (.create name)).getD (.error .detached), w)
    rw [idle?, map_run, create_run_detached gone hsession]
    cases Path.checkObjectName name <;> rfl
  | delete name =>
    have hmember : c.memberPath w.memory name = .error .detached :=
      Container.reach_detached gone hsession _
    exact Option.some.inj h ▸ Detached.map (consult_bind_error hmember) _
  | _ => cases h

end Collection

namespace Container

variable {c : Container} (gone : ¬ w.memory.alive [.session number])
  (hsession : c.session = number)

section

variable (hpath : c.path w.memory = .error .detached)

include hpath

theorem unknown_detached (name : String) :
    (c.unknown w.memory name : Except ClientError α) = .error .detached := by
  rw [unknown, hpath]
  rfl

theorem mismatch_detached (name : String) (wanted : Wanted) :
    (c.mismatch w.memory name wanted : Except ClientError α) = .error .detached := by
  rw [mismatch, hpath]
  rfl

/-- A member of the wanted kind is told; to say why there is none takes a path. -/
theorem pick_detached (wanted : Wanted) (select : Node → Option α) (name : String) :
    pick wanted select w.memory c name =
      match (c.lookup? name).bind select with
      | some found => .ok found
      | none => .error .detached := by
  rw [pick]
  cases hlookup : c.lookup? name with
  | none => exact unknown_detached hpath name
  | some n =>
    dsimp only [Option.bind]
    cases select n with
    | none => exact mismatch_detached hpath name wanted
    | some found => rfl

theorem take_detached (wanted : Wanted) (select : Node → Option α) (name : String)
    (f : α → Reply Node) :
    (consult fun memory => (pick wanted select memory c name).map f : Client σ (Reply Node)) w =
      ((((c.lookup? name).bind select).map fun found => .ok (f found)).getD (.error .detached),
        w) := by
  rw [consult_run, pick_detached hpath]
  cases (c.lookup? name).bind select <;> rfl

end

include gone hsession

theorem Offers.path_detached {n : Node} (offers : c.Offers n) :
    n.path w.memory = .error .detached :=
  Node.path_detached gone (offers.session.trans hsession) (offers.inner number)

theorem useProperty_detached (hpath : c.path w.memory = .error .detached) (name : String)
    {use : Leaf → Client σ α}
    (huse : ∀ l, l.path w.memory = .error .detached → (use l).Detached w) :
    (do use (← consult (c.propertyNamed · name))).Detached w := by
  cases hpick : c.propertyNamed w.memory name with
  | error fault =>
    have hfault := pick_detached hpath .property Node.leaf? name
    rw [← propertyNamed, hpick] at hfault
    split at hfault
    · cases hfault
    · obtain rfl := Except.error.inj hfault
      exact consult_bind_error hpick
  | ok l =>
    obtain ⟨n, offers, hselect⟩ := offers_of_pick hpick
    obtain rfl := Node.eq_of_leaf? hselect
    rw [Detached, consult_bind_ok hpick]
    exact huse l (offers.path_detached gone hsession)

/-- To write to the member of a name takes a path, unless there are no members of it to write. -/
theorem setAttribute_detached (hpath : c.path w.memory = .error .detached) {name : String}
    {state : Json} (h : ∀ d, c.lookup? name = some (.collection d) → state ≠ .obj []) :
    (c.setAttribute remote name state).Detached w := by
  unfold setAttribute
  cases hlookup : c.lookup? name with
  | none => exact congrArg (·, w) (unknown_detached hpath name)
  | some n =>
    have offers := offers_of_lookup? hlookup
    have hn : n.path w.memory = .error .detached := offers.path_detached gone hsession
    cases n with
    | leaf | container => exact consult_bind_error hn
    | collection d =>
      exact Collection.setState_detached gone (offers.session.trans hsession) (h d hlookup)
    | command => exact congrArg (·, w) (mismatch_detached hpath name _)

theorem perform_detached (hne : c.address ≠ [.session number])
    (h : (Node.container c).perform remote operation = some act) :
    act w = (((Node.container c).idle? w.memory operation).getD (.error .detached), w) := by
  have hpath : c.path w.memory = .error .detached := path_detached gone hsession hne
  cases operation with
  | self => exact Option.some.inj h ▸ rfl
  | path => exact Option.some.inj h ▸ Detached.look hpath _
  | typePath =>
    refine Option.some.inj h ▸ Detached.look ?_ _
    rw [typePath, hpath]
    rfl
  | getState | setState => exact Option.some.inj h ▸ Detached.map (consult_bind_error hpath) _
  | setAttribute name state =>
    obtain rfl := Option.some.inj h
    change _ = ((c.idle? (.setAttribute name state)).getD (.error .detached), w)
    by_cases hwrites : ∀ d, c.lookup? name = some (.collection d) → state ≠ .obj []
    · rw [idle?_setAttribute hwrites]
      exact (setAttribute_detached gone hsession hpath hwrites).map _
    · push Not at hwrites
      obtain ⟨d, hlookup, rfl⟩ := hwrites
      rw [idle?, setAttribute, hlookup]
      rfl
  | getProperty name =>
    refine Option.some.inj h ▸ Detached.map (useProperty_detached gone hsession hpath name ?_) _
    exact fun l hl => consult_bind_error hl
  | setProperty name state =>
    refine Option.some.inj h ▸ Detached.map (useProperty_detached gone hsession hpath name ?_) _
    exact fun l hl => consult_bind_error hl
  | lookup => exact Option.some.inj h ▸ rfl
  | child | collection | property | command =>
    exact Option.some.inj h ▸ take_detached hpath _ _ _ _
  | _ => cases h

end Container

theorem Node.perform_detached {n : Node} (gone : ¬ w.memory.alive [.session number])
    (hsession : n.home.session = number) (hne : n.address ≠ [.session number])
    (h : n.perform remote operation = some act) :
    act w = ((n.idle? w.memory operation).getD (.error .detached), w) := by
  cases n with
  | container c => exact Container.perform_detached gone hsession hne h
  | collection c => exact Collection.perform_detached gone hsession h
  | leaf l => exact Leaf.perform_detached gone hsession h
  | command c => exact Command.perform_detached gone hsession h

/-- A session was open, and later neither it nor its root was kept any more. From then on, whatever
callers do and whatever else they keep, an operation of an object of this session that is not the
root says nothing to the remote and changes nothing. It gives what needs no path, and otherwise it
fails because the object is detached. -/
theorem detached_for_good {w u v : World (List Exchange × σ)} {key : String} {s : Session}
    (reachable : w.Reachable remote.traced) (kept : Keyed.get? key w.memory.sessions = some s)
    (before : w.Leads remote.traced u) (dropped : s.root.address ∉ u.memory.held)
    (after : u.Leads remote.traced v) {n : Node} (own : n.home.session = s.number)
    (below : n.address ≠ s.root.address) {operation : Operation}
    {act : Client (List Exchange × σ) (Reply Node)}
    (performed : n.perform remote.traced operation = some act) :
    act v = ((n.idle? v.memory operation).getD (.error .detached), v) := by
  have ended : v.memory.Ended s.number := World.Leads.ended reachable kept before dropped after
  have gone : ¬ v.memory.alive [.session s.number] := fun alive =>
    ended.dropped (Memory.alive_root_iff.1 alive)
  exact Node.perform_detached gone own below performed

end

/-! ### A member that outlives its session

A member and its collection are kept, and the session is dropped. Another session over the same
schema is opened then, which has the same collection with the same member.
-/

namespace Orphan

def remote : Remote Unit := .agreeing fun _ => (["a"], ())

def template : Descriptor :=
  .container ⟨"T", "t", 0⟩ [.leaf ⟨"P", "p", 0⟩ .string] [.container ⟨"U", "u", 0⟩ [] [] []] []

def schema : Compiled :=
  ⟨"", "", "Root", .container ⟨"Root", "root", 0⟩ [] [.collection ⟨"T", "t", 0⟩ template] []⟩

def session : Session := ⟨⟨schema, .compiled⟩, 0⟩

def items : Collection := ⟨session.root, 0, .collection ⟨"T", "t", 0⟩ template⟩

/-- The member that is kept. -/
def member : Container := items.member "a" 1

def start : World (List Exchange × Unit) := { remote := ([], ()) }

def opened : World (List Exchange × Unit) :=
  (Action.performAll remote.traced [.adopt "s" schema, .apply "s" (.collection "t") (some "items"),
    .apply "items" (.get "a") (some "member")] start).2

def dropped : World (List Exchange × Unit) :=
  (Action.performAll remote.traced [.drop "s"] opened).2

def reopened : World (List Exchange × Unit) :=
  (Action.performAll remote.traced [.adopt "s" schema, .apply "s" (.collection "t") (some "other"),
    .apply "other" (.get "a") (some "new")] dropped).2

/-- What an operation of an object of the first session comes to when the second one is open. -/
def Comes (n : Node) (operation : Operation) (result : Except ClientError (Reply Node)) : Prop :=
  ∃ act, n.perform remote.traced operation = some act ∧ act reopened = (result, reopened)

end Orphan

/-- The member lives, since it is kept and in the index of its collection. It cannot be read, and
still tells of its child. The collection does not create a member, refuses one without a name, and
has nothing to do for an empty state. -/
theorem Orphan.detached :
    reopened.memory.object? "member" = some (.container member) ∧
      reopened.memory.alive member.address ∧ reopened.memory.alive items.address ∧
      Comes (.container member) .getState (.error .detached) ∧
      Comes (.container member) (.child "u") (.ok (.object (.container
        (.child member 0 (.container ⟨"U", "u", 0⟩ [] [] []))))) ∧
      Comes (.container member) (.child "x") (.error .detached) ∧
      Comes (.collection items) (.create "b") (.error .detached) ∧
      Comes (.collection items) (.create "") (.error (.path (.malformed "" .emptyObjectName))) ∧
      Comes (.collection items) (.setState (.obj [])) (.ok .done) := by
  have reachable : opened.Reachable remote.traced := ⟨_, _, rfl⟩
  have kept : Keyed.get? "s" opened.memory.sessions = some session := rfl
  have dropping : opened.Leads remote.traced dropped := ⟨_, rfl⟩
  have gone : session.root.address ∉ dropped.memory.held := by decide +kernel
  have reopening : dropped.Leads remote.traced reopened := ⟨_, rfl⟩
  have comes (n : Node) (operation : Operation) {act : Client (List Exchange × Unit) (Reply Node)}
      {result : Except ClientError (Reply Node)} (inside : n.home.session = session.number)
      (below : n.address ≠ session.root.address)
      (performed : n.perform remote.traced operation = some act)
      (idle : (n.idle? reopened.memory operation).getD (.error .detached) = result) :
      Comes n operation result := by
    refine ⟨act, performed, ?_⟩
    rw [← idle]
    exact detached_for_good reachable kept dropping gone reopening inside below performed
  exact ⟨rfl, by decide +kernel, by decide +kernel,
    comes (.container member) .getState rfl (by decide) rfl rfl,
    comes (.container member) (.child "u") rfl (by decide) rfl rfl,
    comes (.container member) (.child "x") rfl (by decide) rfl rfl,
    comes (.collection items) (.create "b") rfl (by decide) rfl rfl,
    comes (.collection items) (.create "") rfl (by decide) rfl rfl,
    comes (.collection items) (.setState (.obj [])) rfl (by decide) rfl rfl⟩

end SettingsTree
