import SettingsTree.Proofs.Session.Index
import SettingsTree.Proofs.Session.Place
import SettingsTree.Session.Operation

/-! # What a collection was told

A trace of a collection is what was said to the remote and what happened to the index meanwhile: an
enumeration drops members, a deletion drops one, and a member enters only when the remote has just
told of it. Whatever is done with a collection, done or given up halfway, is such a trace.
-/

namespace SettingsTree

/-- A call and its answer. -/
structure Exchange where
  call : Call
  answer : Except TransportError call.Answer

def Remote.exchange {σ : Type} (remote : Remote σ) (call : Call) (s : σ) : Exchange :=
  ⟨call, (remote.call call s).1⟩

/-- A remote that also keeps what was said, in order. -/
def Remote.traced {σ : Type} (remote : Remote σ) : Remote (List Exchange × σ) where
  call c s := ((remote.call c s.2).1, s.1 ++ [remote.exchange c s.2], (remote.call c s.2).2)

/-- A remote that enumerates as it is told to, and otherwise agrees to everything. -/
def Remote.agreeing {σ : Type} (names : σ → List String × σ) : Remote σ where
  call
    | .memberNames _, s => (.ok (names s).1, (names s).2)
    | .staticInfo _, s => (.ok (.null, ""), s)
    | .getState _, s => (.ok .null, s)
    | .setState .., s => (.ok (), s)
    | .propertyOptions .., s => (.ok [], s)
    | .delete _, s => (.ok (), s)
    | .create .., s => (.ok (), s)
    | .execute .., s => (.ok .null, s)

/-- A remote that gives one list of names after the other. -/
def Remote.scripted : Remote (List (List String)) :=
  .agreeing fun lists => (lists.headD [], lists.tail)

/-! ### What is said on the way -/

namespace World

variable {σ : Type}

/-- On the way from one world to another exactly this was said. -/
def Said (w : World (List Exchange × σ)) (said : List Exchange) (v : World (List Exchange × σ)) :
    Prop := v.remote.1 = w.remote.1 ++ said

variable {w v u : World (List Exchange × σ)} {said more : List Exchange}

theorem Said.refl (w : World (List Exchange × σ)) : w.Said [] w := (List.append_nil _).symm

theorem Said.trans (h : w.Said said v) (h' : v.Said more u) : w.Said (said ++ more) u := by
  rw [Said, h', h, List.append_assoc]

theorem Said.eq (h : w.Said said v) (h' : w.Said more v) : said = more :=
  List.append_cancel_left (h.symm.trans h')

theorem said_ask (remote : Remote σ) (call : Call) (w : World (List Exchange × σ)) :
    w.Said [remote.exchange call w.remote.2] (Client.ask remote.traced call w).2 := by
  rw [Client.ask_run]
  rfl

end World

namespace Collection

/-! ### Exchanges about a collection -/

/-- The members were enumerated. -/
def Enumerates (c : Collection) (e : Exchange) : Prop :=
  ∃ names, e = ⟨.memberNames c.place, .ok names⟩

/-- The members were enumerated, and the one of a name was among them. -/
def Lists (c : Collection) (name : String) (e : Exchange) : Prop :=
  ∃ names, e = ⟨.memberNames c.place, .ok names⟩ ∧ name ∈ names

/-- The members were enumerated, and the one of a name was not among them. -/
def Omits (c : Collection) (name : String) (e : Exchange) : Prop :=
  ∃ names, e = ⟨.memberNames c.place, .ok names⟩ ∧ name ∉ names

def Creates (c : Collection) (name : String) (e : Exchange) : Prop :=
  e = ⟨.create c.place name, .ok ()⟩

def Deletes (c : Collection) (name : String) (e : Exchange) : Prop :=
  e = ⟨.delete (c.memberPlace name), .ok ()⟩

/-- The remote told of the member of a name: it listed or created the member, and since then neither
were the members enumerated again nor was this one deleted. -/
def Attested (c : Collection) (said : List Exchange) (name : String) : Prop :=
  ∃ before e after, said = before ++ e :: after ∧ (c.Lists name e ∨ c.Creates name e) ∧
    ∀ later ∈ after, ¬ c.Enumerates later ∧ ¬ c.Deletes name later

variable {σ α β : Type} {remote : Remote σ} {c : Collection} {name : String} {names : List String}
  {said before : List Exchange} {e : Exchange}

theorem Lists.attested (h : c.Lists name e) (said : List Exchange) :
    c.Attested (said ++ [e]) name :=
  ⟨said, e, [], rfl, Or.inl h, by simp⟩

theorem Creates.attested (h : c.Creates name e) (said : List Exchange) :
    c.Attested (said ++ [e]) name :=
  ⟨said, e, [], rfl, Or.inr h, by simp⟩

theorem Attested.snoc (h : c.Attested said name) (henumerates : ¬ c.Enumerates e)
    (hdeletes : ¬ c.Deletes name e) : c.Attested (said ++ [e]) name := by
  obtain ⟨front, told, after, rfl, htold, hafter⟩ := h
  refine ⟨front, told, after ++ [e], by simp, htold, fun later hmem => ?_⟩
  rcases List.mem_append.1 hmem with hmem | hmem
  · exact hafter later hmem
  · rw [List.mem_singleton.1 hmem]
    exact ⟨henumerates, hdeletes⟩

/-- What was said earlier does not matter. -/
theorem Attested.prepend (h : c.Attested said name) (before : List Exchange) :
    c.Attested (before ++ said) name := by
  obtain ⟨front, told, after, rfl, htold, hafter⟩ := h
  exact ⟨before ++ front, told, after, by simp, htold, hafter⟩

theorem Enumerates.not_deletes (h : c.Enumerates e) (name : String) : ¬ c.Deletes name e := by
  obtain ⟨names, rfl⟩ := h
  intro hdeletes
  cases hdeletes

theorem Deletes.not_enumerates (h : c.Deletes name e) : ¬ c.Enumerates e :=
  fun henumerates => henumerates.not_deletes name h

theorem Deletes.eq {other : String} (h : c.Deletes name e) (h' : c.Deletes other e) :
    name = other := by
  rw [Deletes] at h h'
  subst h
  simp only [Exchange.mk.injEq, Call.delete.injEq] at h'
  exact c.memberPlace_injective h'.1

/-! ### Traces -/

/-- What is said, and what happens to the index of a collection, on the way from one world to
another. -/
inductive Trace (remote : Remote σ) (c : Collection) (w : World σ) :
    List Exchange → World σ → Prop
  | start : Trace remote c w [] w
  /-- Something is said that is neither an enumeration nor a deletion, or is a failed one. -/
  | exchange {said : List Exchange} {v : World σ} (call : Call) (trace : Trace remote c w said v)
      (henumerates : ¬ c.Enumerates (remote.exchange call v.remote))
      (hdeletes : ∀ name, ¬ c.Deletes name (remote.exchange call v.remote)) :
      Trace remote c w (said ++ [remote.exchange call v.remote])
        { v with remote := (remote.call call v.remote).2 }
  | enumerate {said : List Exchange} {v : World σ} {names : List String}
      (trace : Trace remote c w said v)
      (answer : (remote.call (.memberNames c.place) v.remote).1 = .ok names) :
      Trace remote c w (said ++ [⟨.memberNames c.place, .ok names⟩])
        ⟨(remote.call (.memberNames c.place) v.remote).2, c.retain names v.memory⟩
  | delete {said : List Exchange} {v : World σ} {name : String} (trace : Trace remote c w said v)
      (answer : (remote.call (.delete (c.memberPlace name)) v.remote).1 = .ok ()) :
      Trace remote c w (said ++ [⟨.delete (c.memberPlace name), .ok ()⟩])
        ⟨(remote.call (.delete (c.memberPlace name)) v.remote).2, c.forget name v.memory⟩
  /-- A member is used that the remote told of. -/
  | enter {said : List Exchange} {v : World σ} {name : String} (trace : Trace remote c w said v)
      (attested : c.Attested said name) :
      Trace remote c w said { v with memory := c.enter name v.memory }

namespace Trace

variable {w v : World σ}

theorem enterAll (trace : Trace remote c w said v) (h : ∀ name ∈ names, c.Attested said name) :
    Trace remote c w said { v with memory := c.enterAll names v.memory } := by
  induction names generalizing v with
  | nil => exact trace
  | cons first rest ih =>
    exact ih (trace.enter (h first List.mem_cons_self)) fun name hmem =>
      h name (List.mem_cons_of_mem _ hmem)

/-- A remote that keeps what is said keeps what the trace tells. -/
theorem kept {w v : World (List Exchange × σ)} (trace : Trace remote.traced c w said v) :
    v.remote.1 = w.remote.1 ++ said := by
  induction trace with
  | start => simp
  | exchange call _ _ _ ih => simp [Remote.traced, Remote.exchange, ih]
  | enumerate _ answer ih => simp_all [Remote.traced, Remote.exchange]
  | delete _ answer ih => simp_all [Remote.traced, Remote.exchange]
  | enter _ _ ih => exact ih

theorem changedAt (trace : Trace remote c w said v) :
    Memory.ChangedAt c.address w.memory v.memory := by
  induction trace with
  | start => exact .refl _ _
  | exchange _ _ _ _ ih => exact ih
  | enumerate _ _ ih => exact ih.trans (changedAt_retain _ _ _)
  | delete _ _ ih => exact ih.trans (changedAt_forget _ _ _)
  | enter _ _ ih => exact ih.trans (changedAt_enter _ _ _)

end Trace

/-! ### Operations that are traces -/

/-- Where a trace led to a world of which `pre` holds, the operation leads on along a trace, and
`post` holds of what it gives. -/
def Traced (remote : Remote σ) (c : Collection) (pre : List Exchange → Memory → Prop)
    (x : Client σ α) (post : α → List Exchange → Memory → Prop) : Prop :=
  ∀ start said w, Trace remote c start said w → pre said w.memory →
    ∃ said', Trace remote c start said' (x w).2 ∧
      ∀ a, (x w).1 = .ok a → post a said' (x w).2.memory

namespace Traced

variable {pre pre' : List Exchange → Memory → Prop} {x : Client σ α}
  {post post' : α → List Exchange → Memory → Prop} {last : β → List Exchange → Memory → Prop}

theorem weaken (h : Traced remote c pre x post) (hpre : ∀ said m, pre' said m → pre said m)
    (hpost : ∀ a said m, post a said m → post' a said m) : Traced remote c pre' x post' := by
  intro start said w trace hw
  obtain ⟨said', trace', h'⟩ := h start said w trace (hpre _ _ hw)
  exact ⟨said', trace', fun a ha => hpost _ _ _ (h' a ha)⟩

theorem bind {f : α → Client σ β} (hx : Traced remote c pre x post)
    (hf : ∀ a, Traced remote c (post a) (f a) last) : Traced remote c pre (x >>= f) last := by
  intro start said w trace hw
  obtain ⟨said', trace', h'⟩ := hx start said w trace hw
  rcases hrun : x w with ⟨_ | a, v⟩
  · rw [Client.bind_run_error hrun]
    rw [hrun] at trace'
    exact ⟨said', trace', by simp⟩
  · rw [Client.bind_run_ok hrun]
    rw [hrun] at trace' h'
    exact hf a start said' v trace' (h' a rfl)

theorem map {f : α → β} (hx : Traced remote c pre x post)
    (hf : ∀ a said m, post a said m → last (f a) said m) : Traced remote c pre (f <$> x) last := by
  intro start said w trace hw
  obtain ⟨said', trace', h'⟩ := hx start said w trace hw
  rw [Client.map_run]
  refine ⟨said', trace', fun b hb => ?_⟩
  cases hrun : (x w).1 with
  | error fault => simp [hrun, Except.map] at hb
  | ok a =>
    rw [hrun, Except.map, Except.ok.injEq] at hb
    exact hb ▸ hf a _ _ (h' a hrun)

theorem pure {a : α} (h : ∀ said m, pre said m → post a said m) :
    Traced remote c pre (Pure.pure a) post := fun _ said _ trace hw =>
  ⟨said, trace, fun _ heq => Except.ok.inj heq ▸ h _ _ hw⟩

theorem throw (fault : ClientError) : Traced remote c pre (MonadExcept.throw fault) post :=
  fun _ said _ trace _ => ⟨said, trace, fun _ heq => nomatch heq⟩

theorem consult {f : Memory → Except ClientError α}
    (h : ∀ a said m, f m = .ok a → pre said m → post a said m) :
    Traced remote c pre (Client.consult f) post := fun _ said w trace hw =>
  ⟨said, trace, fun a ha => h a said w.memory ha hw⟩

theorem consulted (f : Memory → Except ClientError α) :
    Traced remote c pre (Client.consult f) fun _ _ _ => True :=
  consult fun _ _ _ _ _ => trivial

theorem ask {call : Call} {post : call.Answer → List Exchange → Memory → Prop}
    (hnames : ∀ path, call ≠ .memberNames path) (hdelete : ∀ path, call ≠ .delete path)
    (h : ∀ a said m, pre said m → post a (said ++ [⟨call, .ok a⟩]) m) :
    Traced remote c pre (Client.ask remote call) post := by
  intro start said w trace hw
  rw [Client.ask_run]
  refine ⟨_, trace.exchange call ?_ ?_, fun a ha => ?_⟩
  · rintro ⟨names, heq⟩
    exact hnames _ (congrArg Exchange.call heq)
  · intro name heq
    exact hdelete _ (congrArg Exchange.call heq)
  · cases hanswer : (remote.call call w.remote).1 with
    | error fault => simp [hanswer, Except.mapError] at ha
    | ok b =>
      simp only [hanswer, Except.mapError, Except.ok.injEq] at ha
      rw [Remote.exchange, hanswer, ha]
      exact h a said w.memory hw

theorem asked {call : Call} (hnames : ∀ path, call ≠ .memberNames path)
    (hdelete : ∀ path, call ≠ .delete path) :
    Traced remote c pre (Client.ask remote call) fun _ _ _ => True :=
  ask hnames hdelete fun _ _ _ _ => trivial

theorem forM {f : β → Client σ Unit} {bs : List β}
    (h : ∀ b, Traced remote c (fun _ _ => True) (f b) fun _ _ _ => True) :
    Traced remote c (fun _ _ => True) (bs.forM f) fun _ _ _ => True := by
  induction bs with
  | nil => exact pure fun _ _ _ => trivial
  | cons b rest ih => exact bind (h b) fun _ => ih

end Traced

end Collection

end SettingsTree
