import SettingsTree.Proofs.Session.Writing

/-! # Turns of a collection

A turn is one use of a collection: an operation, what was said to the remote meanwhile, and what
came of it. Each operation says just what it is there for. So a deletion that was said is a turn
that deleted, a turn that enumerated gives what the remote listed, and a member that is given was
listed or created in the same turn.
-/

namespace SettingsTree

open Client

/-- One use of a collection: what was remembered before, what was done, what was said meanwhile, and
what came of it. -/
structure Turn where
  before : Memory
  operation : Operation
  exchanges : List Exchange
  result : Except ClientError (Reply Node)

namespace Turn

def Gave (turn : Turn) (name : String) (member : Container) : Prop :=
  ∃ reply, turn.result = .ok reply ∧ turn.operation.Gave reply name member

def Deletes (turn : Turn) (name : String) : Prop :=
  turn.operation = .delete name ∧ turn.result = .ok .done

def Enumerates (turn : Turn) (c : Collection) : Prop := ∃ e ∈ turn.exchanges, c.Enumerates e

def Omits (turn : Turn) (c : Collection) (name : String) : Prop :=
  ∃ e ∈ turn.exchanges, c.Omits name e

end Turn

/-- One call at a place, and what comes of it. Where the place cannot be found, nothing is said. -/
inductive Asks (located : Except ClientError String) (call : Call) :
    List Exchange → Except ClientError call.Answer → Prop
  | unlocated {fault : ClientError} (h : located = .error fault) :
      Asks located call [] (.error fault)
  | answered {path : String} (h : located = .ok path) (answer : Except TransportError call.Answer) :
      Asks located call [⟨call, answer⟩] (answer.mapError .transport)

namespace Asks

variable {located : Except ClientError String} {call : Call} {said : List Exchange}
  {result : Except ClientError call.Answer}

theorem silent_or_answered (h : Asks located call said result) :
    (∃ fault, said = [] ∧ result = .error fault) ∨
      ∃ answer, said = [⟨call, answer⟩] ∧ result = answer.mapError .transport := by
  cases h with
  | unlocated => exact Or.inl ⟨_, rfl, rfl⟩
  | answered _ answer => exact Or.inr ⟨answer, rfl, rfl⟩

theorem call_eq (h : Asks located call said result) : ∀ e ∈ said, e.call = call := by
  cases h <;> simp

theorem length_le (h : Asks located call said result) : said.length ≤ 1 := by
  cases h <;> simp

theorem eq_of_ok {answer : call.Answer} (h : Asks located call said (.ok answer)) :
    said = [⟨call, .ok answer⟩] := by
  rcases h.silent_or_answered with ⟨fault, -, hresult⟩ | ⟨fault | found, rfl, hresult⟩
  · cases hresult
  · cases hresult
  · cases hresult
    rfl

end Asks

/-- The operations that do not need the remote. -/
def Operation.isSilent : Operation → Bool
  | .self | .path | .typePath | .owner | .memberPath _ => true
  | _ => false

namespace Collection

/-- How an operation of a collection goes, given what was remembered before: what it says, and what
comes of it. -/
inductive Goes (c : Collection) (template : Descriptor) (memory : Memory) :
    Operation → List Exchange → Except ClientError (Reply Node) → Prop
  | silent {operation : Operation} (h : operation.isSilent)
      (result : Except ClientError (Reply Node)) : Goes c template memory operation [] result
  | names {said : List Exchange} {answer : Except ClientError (List String)}
      (asks : Asks (c.path memory) (.memberNames c.place) said answer) :
      Goes c template memory .names said (answer.map .names)
  | entries {said : List Exchange} {answer : Except ClientError (List String)}
      (asks : Asks (c.path memory) (.memberNames c.place) said answer)
      (member : String → Container) :
      Goes c template memory .entries said
        (answer.map fun names => .entries (names.map fun name => (name, .container (member name))))
  | size {said : List Exchange} {answer : Except ClientError (List String)}
      (asks : Asks (c.path memory) (.memberNames c.place) said answer) :
      Goes c template memory .size said (answer.map fun names => .size names.length)
  | isEmpty {said : List Exchange} {answer : Except ClientError (List String)}
      (asks : Asks (c.path memory) (.memberNames c.place) said answer) :
      Goes c template memory .isEmpty said (answer.map fun names => .flag (names.length = 0))
  | contains {said : List Exchange} {answer : Except ClientError (List String)} {name : String}
      (asks : Asks (c.path memory) (.memberNames c.place) said answer) :
      Goes c template memory (.contains name) said
        (answer.map fun names => .flag (names.contains name))
  | get {said : List Exchange} {answer : Except ClientError (List String)} {name : String}
      (asks : Asks (c.path memory) (.memberNames c.place) said answer) (member : Container) :
      Goes c template memory (.get name) said (answer.bind fun names =>
        if name ∈ names then .ok (.object (.container member))
        else .error (.path (.noSuchObject c.place name)))
  | refused {name : String} {fault : PathError}
      (hcheck : Path.checkObjectName name = .error fault) :
      Goes c template memory (.create name) [] (.error (.path fault))
  | create {said : List Exchange} {answer : Except ClientError Unit} {name : String}
      (hcheck : Path.checkObjectName name = .ok ())
      (asks : Asks (c.path memory) (.create c.place name) said answer) (member : Container) :
      Goes c template memory (.create name) said (answer.map fun _ => .object (.container member))
  | delete {said : List Exchange} {answer : Except ClientError Unit} {name : String}
      (asks : Asks (c.memberPath memory name) (.delete (c.memberPlace name)) said answer) :
      Goes c template memory (.delete name) said (answer.map fun _ => .done)
  | getState {said : List Exchange} {answer : Except ClientError Json}
      (asks : Asks (c.path memory) (.getState c.place) said answer) :
      Goes c template memory .getState said
        (answer.map fun state => .state (Projection.collectionToLocal c.descriptor state))
  | setItem {said : List Exchange} {result : Except ClientError Unit} {name : String} {state : Json}
      (located : c.path memory = .ok c.place)
      (writes : WritesItem c.place template name state said result) :
      Goes c template memory (.setItem name state) said (result.map fun _ => .done)
  | setItemUnlocated {fault : ClientError} {name : String} {state : Json}
      (h : c.path memory = .error fault) :
      Goes c template memory (.setItem name state) [] (.error fault)
  | setState {said : List Exchange} {result : Except ClientError Unit} {members : Keyed Json}
      (located : c.path memory = .ok c.place)
      (writes : Writes c.place template members said result) :
      Goes c template memory (.setState (.obj members)) said (result.map fun _ => .done)
  | setStateUnlocated {fault : ClientError} {members : Keyed Json}
      (h : c.path memory = .error fault) :
      Goes c template memory (.setState (.obj members)) []
        (if members = [] then .ok .done else .error fault)
  | unshaped {state : Json} (h : state.members? = none) :
      Goes c template memory (.setState state) []
        ((c.path memory).bind fun path => .error (.invalidState path))

variable {σ : Type} {remote : Remote σ} {c : Collection} {template : Descriptor} {memory : Memory}
  {name : String} {operation : Operation} {said : List Exchange}
  {result : Except ClientError (Reply Node)} {e : Exchange}

/-! ### How each operation goes -/

/-- What an operation says, and how it goes then. -/
def Going (c : Collection) (template : Descriptor) (operation : Operation)
    (act : Client (List Exchange × σ) (Reply Node)) (w : World (List Exchange × σ)) : Prop :=
  ∃ said, w.Said said (act w).2 ∧ c.Goes template w.memory operation said (act w).1

section

variable (remote c) (w : World (List Exchange × σ))

theorem refresh_asks : ∃ said, w.Said said (c.refresh remote.traced w).2 ∧
    Asks (c.path w.memory) (.memberNames c.place) said (c.refresh remote.traced w).1 := by
  cases hpath : c.path w.memory with
  | error fault =>
    rw [refresh_run_error hpath]
    exact ⟨[], .refl w, .unlocated rfl⟩
  | ok path =>
    obtain rfl := (path_eq_ok_iff.1 hpath).2
    rw [refresh_run hpath]
    exact ⟨_, rfl, .answered rfl (remote.call (.memberNames c.place) w.remote.2).1⟩

theorem delete_asks (name : String) : ∃ said, w.Said said (c.delete remote.traced name w).2 ∧
    Asks (c.memberPath w.memory name) (.delete (c.memberPlace name)) said
      (c.delete remote.traced name w).1 := by
  cases hpath : c.memberPath w.memory name with
  | error fault =>
    rw [delete_run_error hpath]
    exact ⟨[], .refl w, .unlocated rfl⟩
  | ok path =>
    obtain rfl := (memberPath_eq_ok_iff.1 hpath).2
    rw [delete_run hpath]
    exact ⟨_, rfl, .answered rfl (remote.call (.delete (c.memberPlace name)) w.remote.2).1⟩

variable {c w}

theorem going_of_refresh {act : Client (List Exchange × σ) (Reply Node)}
    (f : List String → Reply Node)
    (hact : act w = ((c.refresh remote.traced w).1.map f, (c.refresh remote.traced w).2))
    (h : ∀ said answer, Asks (c.path w.memory) (.memberNames c.place) said answer →
      c.Goes template w.memory operation said (answer.map f)) :
    c.Going template operation act w := by
  obtain ⟨said, hsaid, asks⟩ := refresh_asks remote c w
  rw [Going, hact]
  exact ⟨said, hsaid, h said _ asks⟩

theorem size_going : c.Going template .size (.size <$> c.size remote.traced) w := by
  refine going_of_refresh remote (fun names => .size names.length) ?_ fun _ _ asks => .size asks
  have hsize : c.size remote.traced w = ((c.refresh remote.traced w).1.map List.length,
      (c.refresh remote.traced w).2) := map_run List.length (c.refresh remote.traced) w
  rw [map_run, hsize]
  cases (c.refresh remote.traced w).1 <;> rfl

theorem isEmpty_going : c.Going template .isEmpty (.flag <$> c.isEmpty remote.traced) w := by
  refine going_of_refresh remote (fun names => .flag (names.length = 0)) ?_
    fun _ _ asks => .isEmpty asks
  have hsize : c.size remote.traced w = ((c.refresh remote.traced w).1.map List.length,
      (c.refresh remote.traced w).2) := map_run List.length (c.refresh remote.traced) w
  have hempty : c.isEmpty remote.traced w = ((c.size remote.traced w).1.map fun n => decide (n = 0),
      (c.size remote.traced w).2) := map_run (fun n => decide (n = 0)) (c.size remote.traced) w
  rw [map_run, hempty, hsize]
  cases (c.refresh remote.traced w).1 <;> rfl

theorem contains_going (name : String) :
    c.Going template (.contains name) (.flag <$> c.contains remote.traced name) w := by
  refine going_of_refresh remote (fun names => .flag (names.contains name)) ?_
    fun _ _ asks => .contains asks
  have hcontains : c.contains remote.traced name w =
      ((c.refresh remote.traced w).1.map fun names => names.contains name,
        (c.refresh remote.traced w).2) :=
    map_run (fun names : List String => names.contains name) (c.refresh remote.traced) w
  rw [map_run, hcontains]
  cases (c.refresh remote.traced w).1 <;> rfl

theorem entries_going : c.Going template .entries ((fun members => .entries (members.map
    fun entry => (entry.1, .container entry.2))) <$> c.entries remote.traced) w := by
  obtain ⟨said, hsaid, asks⟩ := refresh_asks remote c w
  rw [Going, map_run, entries]
  rcases hrun : c.refresh remote.traced w with ⟨fault | names, v⟩ <;> rw [hrun] at hsaid asks
  · rw [bind_run_error hrun]
    exact ⟨said, hsaid, .entries asks fun _ => c.owner⟩
  · rw [bind_run_ok hrun, mapM_cached_run]
    have goes : c.Goes template w.memory .entries _ _ :=
      .entries asks fun name => c.memberFor name (c.enterAll names v.memory)
    refine ⟨said, hsaid, ?_⟩
    simpa [Except.map, Function.comp_def] using goes

theorem get_going (known : c.KnowsOwn w.memory) (name : String) : c.Going template (.get name)
    ((fun member => .object (.container member)) <$> c.get remote.traced name) w := by
  rw [Going, map_run, get]
  cases hpath : c.path w.memory with
  | error fault =>
    rw [bind_run_error (contains_run_error hpath name)]
    exact ⟨[], .refl w, .get (.unlocated hpath) c.owner⟩
  | ok path =>
    obtain ⟨attached, rfl⟩ := path_eq_ok_iff.1 hpath
    have writable : c.Writable w.memory := ⟨attached, known⟩
    obtain ⟨answer, v, hcontains, hsaid, hv⟩ := writable.contains_said remote name
    have goes (member : Container) : c.Goes template w.memory (.get name) _ _ :=
      .get (.answered hpath answer) member
    cases answer with
    | error fault =>
      rw [bind_run_error hcontains]
      exact ⟨_, hsaid, goes c.owner⟩
    | ok names =>
      rw [bind_run_ok hcontains]
      by_cases hname : name ∈ names
      · rw [if_pos (List.contains_iff_mem.2 hname), cached_run]
        refine ⟨_, hsaid, ?_⟩
        simpa [hname, Except.mapError, Except.bind, Except.map] using
          goes (c.memberFor name v.memory)
      · rw [if_neg (by simpa using hname), consult_bind_ok hv.path, throw_run]
        refine ⟨_, hsaid, ?_⟩
        simpa [hname, Except.mapError, Except.bind, Except.map] using goes c.owner

theorem delete_going (name : String) :
    c.Going template (.delete name) ((fun _ => .done) <$> c.delete remote.traced name) w := by
  obtain ⟨said, hsaid, asks⟩ := delete_asks remote c w name
  rw [Going, map_run]
  exact ⟨said, hsaid, .delete asks⟩

theorem create_going (name : String) : c.Going template (.create name)
    ((fun member => .object (.container member)) <$> c.create remote.traced name) w := by
  rw [Going, map_run]
  cases hcheck : Path.checkObjectName name with
  | error fault =>
    rw [create, hcheck]
    exact ⟨[], .refl w, .refused hcheck⟩
  | ok _ =>
    cases hpath : c.path w.memory with
    | error fault =>
      have hrun : c.create remote.traced name w = (.error fault, w) := by
        rw [create, hcheck]
        exact consult_bind_error hpath
      rw [hrun]
      exact ⟨[], .refl w, .create hcheck (.unlocated hpath) c.owner⟩
    | ok path =>
      obtain rfl := (path_eq_ok_iff.1 hpath).2
      rw [create_run hcheck hpath]
      refine ⟨[remote.exchange (.create c.place name) w.remote.2], rfl, ?_⟩
      have asks := Asks.answered hpath (remote.call (.create c.place name) w.remote.2).1
      have goes : c.Goes template w.memory (.create name) _ _ :=
        .create hcheck asks (c.memberFor name w.memory)
      dsimp only [Remote.traced]
      cases hanswer : (remote.call (.create c.place name) w.remote.2).1 <;>
        simpa [hanswer, Remote.exchange, Except.map, Except.mapError] using goes

theorem getState_going : c.Going template .getState (.state <$> c.getState remote.traced) w := by
  rw [Going, map_run, getState]
  cases hpath : c.path w.memory with
  | error fault =>
    rw [consult_bind_error hpath]
    exact ⟨[], .refl w, .getState (.unlocated hpath)⟩
  | ok path =>
    obtain rfl := (path_eq_ok_iff.1 hpath).2
    rw [consult_bind_ok hpath]
    obtain ⟨answer, v, hask, hsaid, -⟩ := ask_said remote (.getState c.place) w
    have goes : c.Goes template w.memory .getState _ _ := .getState (.answered hpath answer)
    cases answer with
    | error fault =>
      rw [bind_run_error hask]
      exact ⟨_, hsaid, goes⟩
    | ok state =>
      rw [bind_run_ok hask]
      exact ⟨_, hsaid, goes⟩

theorem setItem_going (hc : c.descriptor.template?.getD c.descriptor = template)
    (known : c.KnowsOwn w.memory) (name : String) (state : Json) :
    c.Going template (.setItem name state)
      ((fun _ => .done) <$> c.setItem remote.traced name state) w := by
  rw [Going, map_run]
  cases hpath : c.path w.memory with
  | error fault =>
    have hrun : c.setItem remote.traced name state w = (.error fault, w) :=
      bind_run_error (contains_run_error hpath name)
    rw [hrun]
    exact ⟨[], .refl w, .setItemUnlocated hpath⟩
  | ok path =>
    obtain ⟨attached, rfl⟩ := path_eq_ok_iff.1 hpath
    have writable : c.Writable w.memory := ⟨attached, known⟩
    obtain ⟨said, result, v, hrun, hsaid, writes, -, -⟩ := writable.setItem_run remote hc name state
    rw [hrun]
    exact ⟨said, hsaid, .setItem hpath writes⟩

theorem setState_going (hc : c.descriptor.template?.getD c.descriptor = template)
    (known : c.KnowsOwn w.memory) (state : Json) : c.Going template (.setState state)
      ((fun _ => .done) <$> c.setState remote.traced state) w := by
  rw [Going, map_run]
  cases hstate : state.members? with
  | none =>
    rw [setState_unshaped hstate]
    have goes : c.Goes template w.memory (.setState state) _ _ := .unshaped hstate
    refine ⟨[], .refl w, ?_⟩
    cases hpath : c.path w.memory <;> rwa [hpath] at goes
  | some members =>
    obtain rfl := Json.eq_obj_of_members? hstate
    cases hpath : c.path w.memory with
    | error fault =>
      rw [setState_unlocated hpath]
      have goes : c.Goes template w.memory (.setState (.obj members)) _ _ :=
        .setStateUnlocated hpath
      refine ⟨[], .refl w, ?_⟩
      split <;> simp_all [Except.map]
    | ok path =>
      obtain ⟨attached, rfl⟩ := path_eq_ok_iff.1 hpath
      have writable : c.Writable w.memory := ⟨attached, known⟩
      obtain ⟨said, result, v, hrun, hsaid, writes⟩ := writable.setState_run remote hc members
      rw [hrun]
      exact ⟨said, hsaid, .setState hpath writes⟩

variable {remote}

/-- Every operation goes as it should, whatever the remote answers. -/
theorem perform_going {act : Client (List Exchange × σ) (Reply Node)}
    (h : (Node.collection c).perform remote.traced operation = some act)
    (hc : c.descriptor.template?.getD c.descriptor = template) (known : c.KnowsOwn w.memory) :
    c.Going template operation act w := by
  cases operation with
  | self | path | typePath | owner | memberPath =>
    exact Option.some.inj h ▸ ⟨[], .refl w, .silent rfl _⟩
  | names =>
    exact Option.some.inj h ▸ going_of_refresh remote .names (map_run _ _ w)
      fun _ _ asks => .names asks
  | entries => exact Option.some.inj h ▸ entries_going remote
  | size => exact Option.some.inj h ▸ size_going remote
  | isEmpty => exact Option.some.inj h ▸ isEmpty_going remote
  | contains name => exact Option.some.inj h ▸ contains_going remote name
  | get name => exact Option.some.inj h ▸ get_going remote known name
  | create name => exact Option.some.inj h ▸ create_going remote name
  | delete name => exact Option.some.inj h ▸ delete_going remote name
  | getState => exact Option.some.inj h ▸ getState_going remote
  | setItem name state => exact Option.some.inj h ▸ setItem_going remote hc known name state
  | setState state => exact Option.some.inj h ▸ setState_going remote hc known state
  | _ => cases h

end

/-! ### What a turn tells -/

/-- Of the members, only what is deleted is said to be. -/
theorem Goes.eq_delete (h : c.Goes template memory operation said result) (he : e ∈ said)
    {path : String} (hcall : e.call = .delete path) : ∃ name, operation = .delete name := by
  cases h with
  | delete => exact ⟨_, rfl⟩
  | silent | refused | setItemUnlocated | setStateUnlocated | unshaped =>
    exact absurd he List.not_mem_nil
  | setItem _ writes => have := writes.addresses e he; simp [Addresses, written?, hcall] at this
  | setState _ writes => have := writes.addresses e he; simp [Addresses, written?, hcall] at this
  | names asks | entries asks | size asks | isEmpty asks | contains asks | get asks
  | create _ asks | getState asks => cases (asks.call_eq e he).symm.trans hcall

/-- A deletion was said exactly when the operation was to delete the member, and did. -/
theorem Goes.deletes_iff (h : c.Goes template memory operation said result) (name : String) :
    (∃ e ∈ said, c.Deletes name e) ↔ operation = .delete name ∧ result = .ok .done := by
  constructor
  · rintro ⟨e, he, hdeletes⟩
    obtain ⟨other, rfl⟩ := h.eq_delete he (congrArg Exchange.call hdeletes)
    cases h with
    | silent hsilent => cases hsilent
    | delete asks =>
      rcases asks.silent_or_answered with ⟨fault, rfl, rfl⟩ | ⟨answer, rfl, rfl⟩
      · exact absurd he List.not_mem_nil
      · obtain rfl := List.mem_singleton.1 he
        simp only [Deletes, Exchange.mk.injEq, Call.delete.injEq] at hdeletes
        obtain rfl := c.memberPlace_injective hdeletes.1
        obtain rfl := eq_of_heq hdeletes.2
        exact ⟨rfl, rfl⟩
  · rintro ⟨rfl, hresult⟩
    cases h with
    | silent hsilent => cases hsilent
    | delete asks =>
      rcases asks.silent_or_answered with ⟨fault, rfl, rfl⟩ | ⟨fault | _, rfl, rfl⟩
      · cases hresult
      · cases hresult
      · exact ⟨_, List.mem_cons_self, rfl⟩

theorem Goes.call_of_get (h : c.Goes template memory (.get name) said result) :
    ∀ e ∈ said, e.call = .memberNames c.place := by
  cases h with
  | silent hsilent => cases hsilent
  | get asks => exact asks.call_eq

/-- Only what is written takes more than one call or writes a state. -/
theorem Goes.writes_or_asks (h : c.Goes template memory operation said result) :
    (∃ name state, operation = .setItem name state) ∨ (∃ state, operation = .setState state) ∨
      said.length ≤ 1 ∧ ∀ e ∈ said, ∀ path state, e.call ≠ .setState path state := by
  cases h with
  | setItem | setItemUnlocated => exact Or.inl ⟨_, _, rfl⟩
  | setState | setStateUnlocated | unshaped => exact Or.inr (Or.inl ⟨_, rfl⟩)
  | silent | refused => simp
  | names asks | entries asks | size asks | isEmpty asks | contains asks | get asks
  | create _ asks | delete asks | getState asks =>
    refine Or.inr (Or.inr ⟨asks.length_le, fun e he path state hcall => ?_⟩)
    cases (asks.call_eq e he).symm.trans hcall

section

variable {reply : Reply Node}

theorem Goes.get_ok (h : c.Goes template memory (.get name) said (.ok reply)) :
    ∃ names, said = [⟨.memberNames c.place, .ok names⟩] ∧ name ∈ names := by
  generalize hresult : Except.ok reply = result at h
  cases h with
  | silent hsilent => cases hsilent
  | @get _ answer _ asks =>
    cases answer with
    | error fault => cases hresult
    | ok names =>
      refine ⟨names, asks.eq_of_ok, ?_⟩
      by_contra hname
      simp [Except.bind, hname] at hresult

theorem Goes.create_ok (h : c.Goes template memory (.create name) said (.ok reply)) :
    said = [⟨.create c.place name, .ok ()⟩] := by
  generalize hresult : Except.ok reply = result at h
  cases h with
  | silent hsilent => cases hsilent
  | refused => cases hresult
  | @create _ answer _ _ asks =>
    cases answer with
    | error fault => cases hresult
    | ok _ => exact asks.eq_of_ok

theorem Goes.entries_ok (h : c.Goes template memory .entries said (.ok reply)) :
    ∃ names, ∃ member : String → Container, said = [⟨.memberNames c.place, .ok names⟩] ∧
      reply = .entries (names.map fun name => (name, .container (member name))) := by
  generalize hresult : Except.ok reply = result at h
  cases h with
  | silent hsilent => cases hsilent
  | @entries _ answer asks member =>
    cases answer with
    | error fault => cases hresult
    | ok names => exact ⟨names, member, asks.eq_of_ok, Except.ok.inj hresult⟩

/-- A member that is given was listed or created in the same turn, and nothing else was said. -/
theorem Goes.told_of_gave (h : c.Goes template memory operation said (.ok reply))
    {member : Container} (hgave : operation.Gave reply name member) :
    ∃ e, said = [e] ∧ (c.Lists name e ∨ c.Creates name e) := by
  rcases hgave with ⟨rfl | rfl, -⟩ | ⟨rfl, members, rfl, hmem⟩
  · obtain ⟨names, rfl, hname⟩ := h.get_ok
    exact ⟨_, rfl, Or.inl ⟨names, rfl, hname⟩⟩
  · obtain rfl := h.create_ok
    exact ⟨_, rfl, Or.inr rfl⟩
  · obtain ⟨names, other, rfl, hreply⟩ := h.entries_ok
    obtain rfl := Reply.entries.inj hreply
    obtain ⟨listed, hlisted, heq⟩ := List.mem_map.1 hmem
    obtain ⟨rfl, -⟩ := Prod.mk.inj heq
    exact ⟨_, rfl, Or.inl ⟨names, rfl, hlisted⟩⟩

end

end Collection

/-- A turn says what its operation should say, and comes to what it should come to. -/
abbrev Turn.Goes (turn : Turn) (c : Collection) (template : Descriptor) : Prop :=
  c.Goes template turn.before turn.operation turn.exchanges turn.result

end SettingsTree
