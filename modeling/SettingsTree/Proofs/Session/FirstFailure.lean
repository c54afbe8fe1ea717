import SettingsTree.Proofs.Session.Reachable

/-! # The first call that fails is the last one

Operations are put together from single calls of the remote by taking one after the other, and no
operation looks at a failure. So an operation makes calls that succeed, up to one that fails, and
then it fails itself, with the fault of the transport as it came.
-/

namespace SettingsTree

open Client

/-- A call that succeeded. -/
def Exchange.Succeeds (e : Exchange) : Prop := ∃ answer, e.answer = .ok answer

theorem Exchange.succeeds_or_fails (e : Exchange) :
    e.Succeeds ∨ ∃ fault, e.answer = .error fault := by
  unfold Succeeds
  cases e.answer with
  | ok answer => exact Or.inl ⟨answer, rfl⟩
  | error fault => exact Or.inr ⟨fault, rfl⟩

theorem Exchange.not_succeeds {e : Exchange} {fault : TransportError}
    (h : e.answer = .error fault) : ¬ e.Succeeds := by
  rintro ⟨answer, hanswer⟩
  rw [hanswer] at h
  cases h

/-- After something was said a computation gives a result. Unless all calls succeeded, the last one
alone failed, and the result is its fault. -/
def StopsAt {α : Type} (said : List Exchange) (result : Except ClientError α) : Prop :=
  ∀ e ∈ said, ∀ fault, e.answer = .error fault →
    (∃ front, said = front ++ [e] ∧ ∀ e' ∈ front, e'.Succeeds) ∧
      result = .error (.transport fault)

section

variable {α β : Type} {said more : List Exchange} {result : Except ClientError α}

theorem StopsAt.nil (result : Except ClientError α) : StopsAt [] result := by simp [StopsAt]

theorem StopsAt.succeeds {a : α} (h : StopsAt said (.ok a : Except ClientError α)) :
    ∀ e ∈ said, e.Succeeds := by
  intro e he
  rcases e.succeeds_or_fails with hok | ⟨fault, hfault⟩
  · exact hok
  · cases (h e he fault hfault).2

theorem StopsAt.error {fault : ClientError}
    (h : StopsAt said (.error fault : Except ClientError α)) :
    StopsAt said (.error fault : Except ClientError β) := by
  intro e he cause hcause
  obtain ⟨hfront, hresult⟩ := h e he cause hcause
  cases hresult
  exact ⟨hfront, rfl⟩

theorem StopsAt.append (hsaid : ∀ e ∈ said, e.Succeeds) (h : StopsAt more result) :
    StopsAt (said ++ more) result := by
  intro e he fault hfault
  rcases List.mem_append.1 he with he | he
  · exact absurd (hsaid e he) (Exchange.not_succeeds hfault)
  · obtain ⟨⟨front, rfl, hfront⟩, hresult⟩ := h e he fault hfault
    refine ⟨⟨said ++ front, (List.append_assoc _ _ _).symm, fun e' he' => ?_⟩, hresult⟩
    exact (List.mem_append.1 he').elim (hsaid e') (hfront e')

end

/-! ### Operations that stop -/

section

variable {σ α β : Type} {remote : Remote σ} {calls : Call → Prop}

namespace Client

/-- An operation makes only calls of some kind, and stops where one fails. -/
def Stops (calls : Call → Prop) (x : Client (List Exchange × σ) α) : Prop :=
  ∀ w, ∃ said, w.Said said (x w).2 ∧ (∀ e ∈ said, calls e.call) ∧ StopsAt said (x w).1

namespace Stops

variable {x : Client (List Exchange × σ) α}

theorem imp {more : Call → Prop} (hx : Stops calls x) (h : ∀ call, calls call → more call) :
    Stops more x := by
  intro w
  obtain ⟨said, hsaid, hcalls, hstops⟩ := hx w
  exact ⟨said, hsaid, fun e he => h _ (hcalls e he), hstops⟩

theorem silent (h : ∀ w, (x w).2.remote = w.remote) : Stops calls x := fun w =>
  ⟨[], by rw [World.Said, h w, List.append_nil], by simp, .nil _⟩

theorem pure (a : α) : Stops calls (Pure.pure a : Client (List Exchange × σ) α) :=
  silent fun _ => rfl

theorem throw (fault : ClientError) :
    Stops calls (MonadExcept.throw fault : Client (List Exchange × σ) α) := silent fun _ => rfl

theorem consult (f : Memory → Except ClientError α) :
    Stops calls (Client.consult f : Client (List Exchange × σ) α) := silent fun _ => rfl

theorem ask {call : Call} (h : calls call) : Stops calls (Client.ask remote.traced call) := by
  intro w
  refine ⟨_, World.said_ask remote call w, ?_, ?_⟩
  · simpa [Remote.exchange] using h
  · intro e he fault hfault
    rw [List.mem_singleton] at he
    subst he
    refine ⟨⟨[], rfl, by simp⟩, ?_⟩
    have hanswer : (remote.call call w.remote.2).1 = .error fault := hfault
    rw [ask_run]
    simp [Remote.traced, hanswer, Except.mapError]

theorem bind {f : α → Client (List Exchange × σ) β} (hx : Stops calls x)
    (hf : ∀ a, Stops calls (f a)) : Stops calls (x >>= f) := by
  intro w
  obtain ⟨said, hsaid, hcalls, hstops⟩ := hx w
  rcases hrun : x w with ⟨fault | a, v⟩ <;> rw [hrun] at hsaid hstops
  · rw [bind_run_error hrun]
    exact ⟨said, hsaid, hcalls, hstops.error⟩
  · rw [bind_run_ok hrun]
    obtain ⟨more, hmore, hcalls', hstops'⟩ := hf a v
    refine ⟨said ++ more, hsaid.trans hmore, fun e he => ?_, hstops'.append hstops.succeeds⟩
    exact (List.mem_append.1 he).elim (hcalls e) (hcalls' e)

theorem map (hx : Stops calls x) (f : α → β) : Stops calls (f <$> x) :=
  hx.bind fun a => .pure (f a)

theorem forM {f : β → Client (List Exchange × σ) Unit} {bs : List β}
    (h : ∀ b, Stops calls (f b)) : Stops calls (bs.forM f) := by
  induction bs with
  | nil => exact .pure ()
  | cons b rest ih => exact (h b).bind fun _ => ih

theorem foldlM {f : α → β → Client (List Exchange × σ) α} {bs : List β} {a : α}
    (h : ∀ a b, Stops calls (f a b)) : Stops calls (bs.foldlM f a) := by
  induction bs generalizing a with
  | nil => exact .pure a
  | cons b rest ih =>
    rw [List.foldlM_cons]
    exact (h a b).bind fun _ => ih

end Stops

end Client

/-! ### Operations of collections -/

namespace Collection

variable {c : Collection} {name : String}

theorem cached_stops (c : Collection) (name : String) :
    Stops calls (c.cached name : Client (List Exchange × σ) Container) :=
  .silent fun w => by rw [cached_run]

theorem refresh_stops (h : ∀ path, calls (.memberNames path)) :
    Stops calls (c.refresh remote.traced) :=
  (Stops.consult _).bind fun path => (Stops.ask (h path)).bind fun _ =>
    Stops.bind (.silent fun _ => rfl) fun _ => .pure _

theorem entries_stops (h : ∀ path, calls (.memberNames path)) :
    Stops calls (c.entries remote.traced) :=
  (refresh_stops h).bind fun _ => .silent fun w => by rw [mapM_cached_run]

theorem size_stops (h : ∀ path, calls (.memberNames path)) : Stops calls (c.size remote.traced) :=
  (refresh_stops h).bind fun _ => .pure _

theorem isEmpty_stops (h : ∀ path, calls (.memberNames path)) :
    Stops calls (c.isEmpty remote.traced) :=
  (size_stops h).bind fun _ => .pure _

theorem contains_stops (h : ∀ path, calls (.memberNames path)) :
    Stops calls (c.contains remote.traced name) :=
  (refresh_stops h).bind fun _ => .pure _

theorem get_stops (h : ∀ path, calls (.memberNames path)) :
    Stops calls (c.get remote.traced name) := by
  refine (contains_stops h).bind fun found => ?_
  cases found with
  | true => exact cached_stops c name
  | false => exact (Stops.consult _).bind fun _ => .throw _

theorem create_stops (h : ∀ path, calls (.create path name)) :
    Stops calls (c.create remote.traced name) := by
  unfold create
  cases Path.checkObjectName name with
  | error fault => exact .throw _
  | ok done =>
    exact (Stops.consult _).bind fun path => (Stops.ask (h path)).bind fun _ => cached_stops c name

theorem delete_stops (h : ∀ path, calls (.delete path)) :
    Stops calls (c.delete remote.traced name) :=
  (Stops.consult _).bind fun path => (Stops.ask (h path)).bind fun _ => .silent fun _ => rfl

end Collection

/-! ### Reading and writing -/

theorem Leaf.getState_stops {l : Leaf} (h : ∀ path, calls (.getState path)) :
    Stops calls (l.getState remote.traced) :=
  (Stops.consult _).bind fun path => .ask (h path)

theorem Leaf.setState_stops {l : Leaf} {value : Json}
    (h : ∀ path state, calls (.setState path state)) :
    Stops calls (l.setState remote.traced value) :=
  (Stops.consult _).bind fun path => .ask (h path value)

theorem Container.setState_stops {c : Container} {state : Json}
    (h : ∀ path state, calls (.setState path state)) :
    Stops calls (c.setState remote.traced state) :=
  (Stops.consult _).bind fun path => .ask (h path _)

theorem Collection.setItem_stops {c : Collection} {name : String} {state : Json}
    (hnames : ∀ path, calls (.memberNames path)) (hcreate : ∀ path name, calls (.create path name))
    (hset : ∀ path state, calls (.setState path state)) :
    Stops calls (c.setItem remote.traced name state) := by
  refine (contains_stops hnames).bind fun found => ?_
  cases found with
  | true => exact (cached_stops c name).bind fun _ => Container.setState_stops hset
  | false => exact (create_stops (hcreate · name)).bind fun _ => Container.setState_stops hset

theorem Collection.setState_stops {c : Collection} {state : Json}
    (hnames : ∀ path, calls (.memberNames path)) (hcreate : ∀ path name, calls (.create path name))
    (hset : ∀ path state, calls (.setState path state)) :
    Stops calls (c.setState remote.traced state) := by
  unfold setState
  cases state with
  | obj members => exact .forM fun entry => setItem_stops hnames hcreate hset
  | _ => exact (Stops.consult _).bind fun _ => .throw _

theorem Container.setAttribute_stops {c : Container} {name : String} {state : Json}
    (hnames : ∀ path, calls (.memberNames path)) (hcreate : ∀ path name, calls (.create path name))
    (hset : ∀ path state, calls (.setState path state)) :
    Stops calls (c.setAttribute remote.traced name state) := by
  unfold setAttribute
  split
  · exact Leaf.setState_stops hset
  · exact Container.setState_stops hset
  · exact Collection.setState_stops hnames hcreate hset
  · exact .consult _
  · exact .consult _

theorem Command.invoke_stops {c : Command} {keywords : List (String × Json)}
    (h : ∀ owner command arguments, calls (.execute owner command arguments)) :
    Stops calls (c.invoke remote.traced keywords) := by
  unfold invoke
  dsimp only
  split
  · exact .throw _
  · exact (Stops.consult _).bind fun _ => (Stops.consult _).bind fun owner => .ask (h owner _ _)

/-! ### Operations of objects -/

def Call.isCreate : Call → Bool
  | .create .. => true
  | _ => false

def Call.isDelete : Call → Bool
  | .delete _ => true
  | _ => false

def Operation.creates : Operation → Bool
  | .create _ | .setItem .. | .setState _ | .setAttribute .. => true
  | _ => false

def Operation.deletes : Operation → Bool
  | .delete _ => true
  | _ => false

/-- The calls that an operation may make: members are created and deleted only by the operations
that are there for it. -/
def Operation.Makes (operation : Operation) (call : Call) : Prop :=
  (call.isCreate → operation.creates) ∧ (call.isDelete → operation.deletes)

variable {operation : Operation} {act : Client (List Exchange × σ) (Reply Node)}

namespace Container

variable {c : Container}

theorem perform_stops (h : (Node.container c).perform remote.traced operation = some act) :
    Stops operation.Makes act := by
  cases operation with
  | self | lookup => exact Option.some.inj h ▸ .pure _
  | path | typePath | child | collection | property | command =>
    exact Option.some.inj h ▸ .consult _
  | getState =>
    refine Option.some.inj h ▸ .map ?_ _
    exact (Stops.consult _).bind fun _ => (Stops.ask ⟨nofun, nofun⟩).bind fun _ => .pure _
  | setState state =>
    exact Option.some.inj h ▸ .map (setState_stops fun _ _ => ⟨nofun, nofun⟩) _
  | setAttribute name state =>
    exact Option.some.inj h ▸ .map (setAttribute_stops (fun _ => ⟨nofun, nofun⟩)
      (fun _ _ => ⟨fun _ => rfl, nofun⟩) fun _ _ => ⟨nofun, nofun⟩) _
  | getProperty name =>
    exact Option.some.inj h ▸ .map ((Stops.consult _).bind fun _ =>
      Leaf.getState_stops fun _ => ⟨nofun, nofun⟩) _
  | setProperty name state =>
    exact Option.some.inj h ▸ .map ((Stops.consult _).bind fun _ =>
      Leaf.setState_stops fun _ _ => ⟨nofun, nofun⟩) _
  | _ => cases h

end Container

theorem Collection.perform_stops {c : Collection}
    (h : (Node.collection c).perform remote.traced operation = some act) :
    Stops operation.Makes act := by
  have names {operation : Operation} (path : String) : operation.Makes (.memberNames path) :=
    ⟨nofun, nofun⟩
  cases operation with
  | self => exact Option.some.inj h ▸ .pure _
  | path | typePath | owner | memberPath => exact Option.some.inj h ▸ .consult _
  | getState =>
    refine Option.some.inj h ▸ .map ?_ _
    exact (Stops.consult _).bind fun _ => (Stops.ask ⟨nofun, nofun⟩).bind fun _ => .pure _
  | setState state =>
    exact Option.some.inj h ▸
      .map (setState_stops names (fun _ _ => ⟨fun _ => rfl, nofun⟩) fun _ _ => ⟨nofun, nofun⟩) _
  | names => exact Option.some.inj h ▸ .map (refresh_stops names) _
  | entries => exact Option.some.inj h ▸ .map (entries_stops names) _
  | size => exact Option.some.inj h ▸ .map (size_stops names) _
  | isEmpty => exact Option.some.inj h ▸ .map (isEmpty_stops names) _
  | contains name => exact Option.some.inj h ▸ .map (contains_stops names) _
  | get name => exact Option.some.inj h ▸ .map (get_stops names) _
  | create name => exact Option.some.inj h ▸ .map (create_stops fun _ => ⟨fun _ => rfl, nofun⟩) _
  | setItem name state =>
    exact Option.some.inj h ▸
      .map (setItem_stops names (fun _ _ => ⟨fun _ => rfl, nofun⟩) fun _ _ => ⟨nofun, nofun⟩) _
  | delete name => exact Option.some.inj h ▸ .map (delete_stops fun _ => ⟨nofun, fun _ => rfl⟩) _
  | _ => cases h

theorem Leaf.perform_stops {l : Leaf}
    (h : (Node.leaf l).perform remote.traced operation = some act) :
    Stops operation.Makes act := by
  cases operation with
  | self => exact Option.some.inj h ▸ .pure _
  | path | owner => exact Option.some.inj h ▸ .consult _
  | getState => exact Option.some.inj h ▸ .map (getState_stops fun _ => ⟨nofun, nofun⟩) _
  | setState state => exact Option.some.inj h ▸ .map (setState_stops fun _ _ => ⟨nofun, nofun⟩) _
  | allowedValues =>
    refine Option.some.inj h ▸ .map ?_ _
    exact (Stops.consult _).bind fun _ => (Stops.consult _).bind fun _ => .ask ⟨nofun, nofun⟩
  | _ => cases h

theorem Command.perform_stops {c : Command}
    (h : (Node.command c).perform remote.traced operation = some act) :
    Stops operation.Makes act := by
  cases operation with
  | self => exact Option.some.inj h ▸ .pure _
  | path | owner => exact Option.some.inj h ▸ .consult _
  | invoke => exact Option.some.inj h ▸ .map (invoke_stops fun _ _ _ => ⟨nofun, nofun⟩) _
  | _ => cases h

/-- Every operation of an object stops at the first call that fails. -/
theorem Node.perform_stops {n : Node} (h : n.perform remote.traced operation = some act) :
    Stops operation.Makes act := by
  cases n with
  | container c => exact Container.perform_stops h
  | collection c => exact Collection.perform_stops h
  | leaf l => exact Leaf.perform_stops h
  | command c => exact Command.perform_stops h

/-! ### Paths -/

namespace Session

theorem follow_stops (path : String) (n : Node) (step : Step)
    (h : ∀ path, calls (.memberNames path)) : Stops calls (follow remote.traced path n step) := by
  rcases follow_cases remote.traced path n step with
    ⟨c, d, name, -, -, -, -, heq⟩ | ⟨c, m, -, -, -, -, heq⟩ | heq
  · exact heq ▸ (Collection.get_stops h).map _
  · exact heq ▸ .pure m
  · exact heq ▸ .throw _

/-- To follow a path takes enumerations only, and stops at the first one that fails. -/
theorem resolve_stops (s : Session) (path : String) (h : ∀ path, calls (.memberNames path)) :
    Stops calls (s.resolve remote.traced path) := by
  rcases resolve_cases remote.traced s path with ⟨rest, -, -, heq⟩ | ⟨fault, heq⟩
  · exact heq ▸ .foldlM fun n step => follow_stops path n step h
  · exact heq ▸ .throw fault

end Session

end

end SettingsTree
