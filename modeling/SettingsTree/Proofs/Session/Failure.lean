import SettingsTree.Proofs.Session.FirstFailure
import SettingsTree.Proofs.Session.History

/-! # What is remembered when a call fails

Memory changes only on account of calls that succeeded. So when a call fails, every difference that
an operation made to an index goes back to an earlier call, and a first call that fails leaves
everything as it was.
-/

namespace SettingsTree

open Client

section

variable {σ : Type} {remote : Remote σ}

/-! ### What accounts for an index -/

namespace Collection

variable {c : Collection} {name : String} {e : Exchange} {said more : List Exchange}
  {memory middle later : Memory}

theorem Enumerates.succeeds (h : c.Enumerates e) : e.Succeeds := by
  obtain ⟨names, rfl⟩ := h
  exact ⟨names, rfl⟩

theorem Lists.succeeds (h : c.Lists name e) : e.Succeeds := by
  obtain ⟨names, rfl, -⟩ := h
  exact ⟨names, rfl⟩

theorem Creates.succeeds (h : c.Creates name e) : e.Succeeds := by
  subst h
  exact ⟨(), rfl⟩

theorem Drops.succeeds (h : c.Drops name e) : e.Succeeds := by
  rcases h.enumerates_or_deletes with h | h
  · exact h.succeeds
  · subst h
    exact ⟨(), rfl⟩

/-- What was said accounts for what became of the index of a collection: a member that is gone was
omitted or deleted, a member that is new was listed or created, and if the index was synchronised,
the members were enumerated. -/
structure Accounts (c : Collection) (said : List Exchange) (memory later : Memory) : Prop where
  gone : ∀ name member, (name, member) ∈ c.known memory → (name, member) ∉ c.known later →
    ∃ e ∈ said, c.Drops name e
  new : ∀ name member, (name, member) ∈ c.known later → (name, member) ∉ c.known memory →
    ∃ e ∈ said, c.Lists name e ∨ c.Creates name e
  synced : (later.index c.address).sync ≠ (memory.index c.address).sync →
    ∃ e ∈ said, c.Enumerates e

namespace Accounts

theorem of_index_eq (h : later.index c.address = memory.index c.address) :
    c.Accounts said memory later where
  gone name member hmem hgone := by
    rw [known, h] at hgone
    exact absurd hmem hgone
  new name member hmem hnew := by
    rw [known, h] at hmem
    exact absurd hmem hnew
  synced hne := absurd (congrArg Index.sync h) hne

theorem mono (h : c.Accounts said memory later) (hle : ∀ e ∈ said, e.Succeeds → e ∈ more) :
    c.Accounts more memory later where
  gone name member hmem hgone := by
    obtain ⟨e, he, hdrops⟩ := h.gone name member hmem hgone
    exact ⟨e, hle e he hdrops.succeeds, hdrops⟩
  new name member hmem hnew := by
    obtain ⟨e, he, htold⟩ := h.new name member hmem hnew
    exact ⟨e, hle e he (htold.elim Lists.succeeds Creates.succeeds), htold⟩
  synced hne := by
    obtain ⟨e, he, henumerates⟩ := h.synced hne
    exact ⟨e, hle e he henumerates.succeeds, henumerates⟩

theorem trans (h : c.Accounts said memory middle) (h' : c.Accounts said middle later) :
    c.Accounts said memory later where
  gone name member hmem hgone := by
    by_cases hmiddle : (name, member) ∈ c.known middle
    · exact h'.gone name member hmiddle hgone
    · exact h.gone name member hmem hmiddle
  new name member hmem hnew := by
    by_cases hmiddle : (name, member) ∈ c.known middle
    · exact h.new name member hmiddle hnew
    · exact h'.new name member hmem hmiddle
  synced hne := by
    by_cases hmiddle : (middle.index c.address).sync = (memory.index c.address).sync
    · exact h'.synced (hmiddle ▸ hne)
    · exact h.synced hmiddle

theorem append (h : c.Accounts said memory middle) (h' : c.Accounts more middle later) :
    c.Accounts (said ++ more) memory later :=
  (h.mono fun _ he _ => List.mem_append_left _ he).trans
    (h'.mono fun _ he _ => List.mem_append_right _ he)

theorem retain (c : Collection) (names : List String) (memory : Memory) :
    c.Accounts [⟨.memberNames c.place, .ok names⟩] memory (c.retain names memory) where
  gone name member hmem hgone := by
    refine ⟨_, List.mem_cons_self, Or.inl ⟨names, rfl, fun hname => hgone ?_⟩⟩
    rw [known_retain, List.mem_filter]
    exact ⟨hmem, List.contains_iff_mem.2 hname⟩
  new name member hmem hnew := by
    rw [known_retain] at hmem
    exact absurd (List.mem_of_mem_filter hmem) hnew
  synced _ := ⟨_, List.mem_cons_self, names, rfl⟩

theorem forget (c : Collection) (name : String) (memory : Memory) :
    c.Accounts [⟨.delete (c.memberPlace name), .ok ()⟩] memory (c.forget name memory) where
  gone other member hmem hgone := by
    have hname : other = name := by
      by_contra hne
      rw [known_forget, Keyed.erase, List.mem_filter] at hgone
      exact hgone ⟨hmem, by simpa using hne⟩
    exact ⟨_, List.mem_cons_self, Or.inr (hname ▸ rfl)⟩
  new other member hmem hnew := by
    rw [known_forget] at hmem
    exact absurd (List.mem_of_mem_filter hmem) hnew
  synced hne := by simp [Collection.forget] at hne

theorem enter (hattested : c.Attested said name) (memory : Memory) :
    c.Accounts said memory (c.enter name memory) := by
  cases hget : Keyed.get? name (c.known memory) with
  | some member => exact of_index_eq (by rw [(enter_of_known hget).1])
  | none =>
    obtain ⟨hknown, -, -⟩ := enter_of_unknown hget
    refine ⟨fun other member hmem hgone => ?_, fun other member hmem hnew => ?_, fun hne => ?_⟩
    · rw [hknown] at hgone
      exact absurd (List.mem_append_left _ hmem) hgone
    · rcases mem_known_enter hmem with hmem | ⟨heq, -⟩
      · exact absurd hmem hnew
      · cases heq
        obtain ⟨before, e, after, rfl, htold, -⟩ := hattested
        exact ⟨e, by simp, htold⟩
    · rw [Collection.enter, hget] at hne
      simp at hne

end Accounts

theorem Trace.accounts {w v : World σ} (trace : Trace remote c w said v) :
    c.Accounts said w.memory v.memory := by
  induction trace with
  | start => exact .of_index_eq rfl
  | exchange call _ _ _ ih => exact ih.append (.of_index_eq rfl)
  | enumerate _ _ ih => exact ih.append (.retain c _ _)
  | delete _ _ ih => exact ih.append (.forget c _ _)
  | enter _ attested ih => exact ih.trans (.enter attested _)

/-- Without a call that succeeds, a trace changes nothing that is remembered. -/
theorem Trace.unchanged {w v : World σ} (trace : Trace remote c w said v)
    (h : ∀ e ∈ said, ¬ e.Succeeds) : v.memory = w.memory := by
  induction trace with
  | start => rfl
  | exchange _ _ _ _ ih => exact ih fun e he => h e (List.mem_append_left _ he)
  | enumerate | delete => exact absurd ⟨_, rfl⟩ (h _ (List.mem_append_right _ List.mem_cons_self))
  | enter _ attested _ =>
    obtain ⟨before, e, after, rfl, htold, -⟩ := attested
    exact absurd (htold.elim Lists.succeeds Creates.succeeds) (h e (by simp))

end Collection

/-! ### What accounts for all indexes -/

namespace Memory

/-- What was said accounts for all changes of memory. Without a call that succeeded there are none,
and an index that changed is that of a collection, for which it is accounted. -/
structure Changes (reg : Registry) (said : List Exchange) (memory later : Memory) : Prop where
  unchanged : (∀ e ∈ said, ¬ e.Succeeds) → later = memory
  indexes : ∀ a, later.index a = memory.index a ∨ ∃ c : Collection,
    c.Fits reg later.fresh ∧ c.address = a ∧ c.Accounts said memory later

namespace Changes

variable {reg last : Registry} {said more : List Exchange} {memory middle later : Memory}

theorem refl (reg : Registry) (said : List Exchange) (memory : Memory) :
    Changes reg said memory memory := ⟨fun _ => rfl, fun _ => Or.inl rfl⟩

theorem trans (h : Changes reg said memory middle) (h' : Changes last more middle later)
    (agree : reg.Agree middle.fresh last) (hle : middle.fresh ≤ later.fresh) :
    Changes last (said ++ more) memory later where
  unchanged hnone := by
    have hfirst := h.unchanged fun e he => hnone e (List.mem_append_left _ he)
    exact (h'.unchanged fun e he => hnone e (List.mem_append_right _ he)).trans hfirst
  indexes a := by
    rcases h.indexes a with heq | ⟨c, fits, rfl, accounts⟩
    · rcases h'.indexes a with heq' | ⟨c, fits, rfl, accounts⟩
      · exact Or.inl (heq'.trans heq)
      · exact Or.inr ⟨c, fits, rfl, (Collection.Accounts.of_index_eq heq).append accounts⟩
    · refine Or.inr ⟨c, fits.mono agree hle, rfl, accounts.append ?_⟩
      rcases h'.indexes c.address with heq' | ⟨c', fits', haddress, accounts'⟩
      · exact .of_index_eq heq'
      · exact fits'.eq_of_address (fits.mono agree hle) haddress ▸ accounts'

theorem of_trace {c : Collection} {w v : World σ} (trace : Collection.Trace remote c w said v)
    (fits : c.Fits reg v.memory.fresh) : Changes reg said w.memory v.memory where
  unchanged := trace.unchanged
  indexes a := by
    by_cases ha : a = c.address
    · exact Or.inr ⟨c, fits, ha.symm, trace.accounts⟩
    · exact Or.inl (trace.changedAt.index a ha)

theorem accounts (h : Changes reg said memory later) {c : Collection}
    (fits : c.Fits reg later.fresh) : c.Accounts said memory later := by
  rcases h.indexes c.address with heq | ⟨c', fits', haddress, accounts⟩
  · exact .of_index_eq heq
  · exact fits'.eq_of_address fits haddress ▸ accounts

end Changes

end Memory

/-! ### Members that could not be created -/

namespace Collection

variable {α β : Type} {c : Collection} {name : String} {calls : Call → Prop}

/-- The operation stops at the first call that fails. If this was to create a member, then no member
of the name is in the index. -/
def Misses (c : Collection) (x : Client (List Exchange × σ) α) (w : World (List Exchange × σ)) :
    Prop :=
  ∃ said, w.Said said (x w).2 ∧ StopsAt said (x w).1 ∧
    ∀ e ∈ said, ¬ e.Succeeds → ∀ name, e.call = .create c.place name →
      Keyed.get? name (c.known (x w).2.memory) = none

variable {x : Client (List Exchange × σ) α} {w : World (List Exchange × σ)}

theorem misses_of_stops (h : Stops (fun call => call.isCreate = false) x) (c : Collection)
    (w : World (List Exchange × σ)) : c.Misses x w := by
  obtain ⟨said, hsaid, hcalls, hstops⟩ := h w
  refine ⟨said, hsaid, hstops, fun e he _ name hcall => ?_⟩
  have hplain := hcalls e he
  rw [hcall] at hplain
  cases hplain

theorem Misses.bind {f : α → Client (List Exchange × σ) β} (hx : c.Misses x w)
    (hf : ∀ a v, x w = (.ok a, v) → c.Misses (f a) v) : c.Misses (x >>= f) w := by
  obtain ⟨said, hsaid, hstops, hmisses⟩ := hx
  rcases hrun : x w with ⟨fault | a, v⟩ <;> rw [hrun] at hsaid hstops hmisses
  · rw [Misses, bind_run_error hrun]
    exact ⟨said, hsaid, hstops.error, hmisses⟩
  · obtain ⟨more, hmore, hstops', hmisses'⟩ := hf a v hrun
    rw [Misses, bind_run_ok hrun]
    refine ⟨said ++ more, hsaid.trans hmore, hstops'.append hstops.succeeds, fun e he hfailed => ?_⟩
    rcases List.mem_append.1 he with he | he
    · exact absurd (hstops.succeeds e he) hfailed
    · exact hmisses' e he hfailed

/-- A member that could not be created does not enter the index. -/
theorem create_memory {e : Exchange} {said : List Exchange}
    (hsaid : w.Said said (c.create remote.traced name w).2) (he : e ∈ said)
    (hfailed : ¬ e.Succeeds) :
    (c.create remote.traced name w).2.memory = w.memory ∧
      ∀ other, e.call = .create c.place other → other = name := by
  cases hcheck : Path.checkObjectName name with
  | error fault =>
    rw [create, hcheck] at hsaid
    rw [hsaid.eq (.refl w)] at he
    exact absurd he List.not_mem_nil
  | ok done =>
    cases hpath : c.path w.memory with
    | error fault =>
      have hrun : c.create remote.traced name w = (.error fault, w) := by
        rw [create, hcheck]
        exact consult_bind_error hpath
      rw [hrun] at hsaid
      rw [hsaid.eq (.refl w)] at he
      exact absurd he List.not_mem_nil
    | ok path =>
      rw [create_run hcheck hpath] at hsaid ⊢
      have hone : said = [remote.exchange (.create path name) w.remote.2] := hsaid.eq rfl
      rw [hone, List.mem_singleton] at he
      subst he
      refine ⟨?_, fun other hcall => ?_⟩
      · dsimp only
        split
        · next hanswer => exact absurd ⟨(), hanswer⟩ hfailed
        · rfl
      · cases hcall
        rfl

theorem setItem_misses (c : Collection) (name : String) (state : Json)
    (w : World (List Exchange × σ)) : c.Misses (c.setItem remote.traced name state) w := by
  have hcontains : Stops (fun call => call.isCreate = false) (c.contains remote.traced name) :=
    contains_stops fun _ => rfl
  have hwrite (member : Container) :
      Stops (fun call => call.isCreate = false) (member.setState remote.traced state) :=
    Container.setState_stops fun _ _ => rfl
  refine (misses_of_stops hcontains c w).bind fun found v hfound => ?_
  cases found with
  | true => exact misses_of_stops ((cached_stops c name).bind hwrite) c v
  | false =>
    have hunknown : Keyed.get? name (c.known v.memory) = none := unknown_of_contains hfound
    have hcreate : c.Misses (c.create remote.traced name) v := by
      have hstops : Stops (fun _ => True) (c.create remote.traced name) :=
        create_stops fun _ => trivial
      obtain ⟨said, hsaid, -, hstop⟩ := hstops v
      refine ⟨said, hsaid, hstop, fun e he hfailed other hcall => ?_⟩
      obtain ⟨hmemory, hname⟩ := create_memory hsaid he hfailed
      rw [hmemory, hname other hcall]
      exact hunknown
    exact hcreate.bind fun member u _ => misses_of_stops (hwrite member) c u

theorem setState_misses (c : Collection) (state : Json) (w : World (List Exchange × σ)) :
    c.Misses (c.setState remote.traced state) w := by
  have written (members : Keyed Json) : ∀ w : World (List Exchange × σ),
      c.Misses (members.forM fun entry => c.setItem remote.traced entry.1 entry.2) w := by
    induction members with
    | nil => exact misses_of_stops (.pure ()) c
    | cons entry rest ih =>
      exact fun w => (c.setItem_misses entry.1 entry.2 w).bind fun _ v _ => ih v
  unfold setState
  cases state with
  | obj members => exact written members w
  | _ => exact misses_of_stops ((Stops.consult _).bind fun _ => .throw _) c w

/-! ### Members that were created or written -/

/-- A member that was created or written is in the index, unless it was dropped since. -/
def Holds (c : Collection) (said : List Exchange) (memory : Memory) : Prop :=
  ∀ front e back name, said = front ++ e :: back →
    (c.Creates name e ∨ ∃ state, e.call = .setState (c.memberPlace name) state) →
    (∀ later ∈ back, ¬ c.Drops name later) → name ∈ Keyed.names (c.known memory)

theorem Holds.append {said more : List Exchange} {memory later : Memory} (h : c.Holds said memory)
    (h' : c.Holds more later)
    (kept : ∀ name ∈ Keyed.names (c.known memory), (∀ e ∈ more, ¬ c.Drops name e) →
      name ∈ Keyed.names (c.known later)) : c.Holds (said ++ more) later := by
  intro front e back name heq hused hback
  rcases List.append_eq_append_iff.1 heq with ⟨middle, rfl, hmore⟩ | ⟨middle, hsaid, hafter⟩
  · exact h' middle e back name hmore hused hback
  · cases middle with
    | nil => exact h' [] e back name hafter.symm hused hback
    | cons first middle =>
      obtain ⟨rfl, rfl⟩ := List.cons.inj hafter
      refine kept name (h front e middle name hsaid hused fun later hlater => ?_)
        fun later hlater => ?_
      · exact hback later (List.mem_append_left _ hlater)
      · exact hback later (List.mem_append_right _ hlater)

theorem WritesItem.eq_of_used {template : Descriptor} {state : Json} {said : List Exchange}
    {result : Except ClientError Unit} (h : WritesItem c.place template name state said result)
    {e : Exchange} (he : e ∈ said) {other : String}
    (hused : c.Creates other e ∨ ∃ state, e.call = .setState (c.memberPlace other) state) :
    other = name := by
  have haddresses := h.addresses e he
  rcases hused with rfl | ⟨written, hcall⟩
  · simpa [Addresses, written?] using haddresses
  · simp only [Addresses, hcall, written?, writing, List.mem_singleton, exists_eq_left,
      reduceCtorEq, false_or, Option.some.injEq, Prod.mk.injEq, ← memberPlace_eq] at haddresses
    exact c.memberPlace_injective haddresses.1

theorem WritesItem.told {template : Descriptor} {state : Json} {said : List Exchange}
    {result : Except ClientError Unit} (h : WritesItem c.place template name state said result)
    {e : Exchange} (he : e ∈ said) {other : String}
    (hused : c.Creates other e ∨ ∃ state, e.call = .setState (c.memberPlace other) state) :
    ∃ e ∈ said, c.Lists name e ∨ c.Creates name e := by
  cases h with
  | listed hname => exact ⟨_, List.mem_cons_self, Or.inl ⟨_, rfl, hname⟩⟩
  | created => exact ⟨_, List.mem_cons_of_mem _ List.mem_cons_self, Or.inr rfl⟩
  | unanswered | refused | uncreated =>
    simp only [List.mem_cons, List.not_mem_nil, or_false] at he
    rcases he with rfl | rfl <;> simp [Creates] at hused

section

variable (remote) {w : World (List Exchange × σ)}

theorem Writable.setItem_holds (writable : c.Writable w.memory) (name : String) (state : Json) :
    ∃ said result v, c.setItem remote.traced name state w = (result, v) ∧ w.Said said v ∧
      c.Writable v.memory ∧ c.Holds said v.memory := by
  obtain ⟨said, result, v, hrun, hsaid, hwrites, hv, htold⟩ :=
    writable.setItem_run remote rfl name state
  refine ⟨said, result, v, hrun, hsaid, hv, ?_⟩
  rintro front e back other rfl hused -
  have he : e ∈ front ++ e :: back := by simp
  rw [hwrites.eq_of_used he hused]
  exact htold (hwrites.told he hused)

/-- Whatever is in the index stays there unless it is dropped. -/
theorem Accounts.kept {said : List Exchange} {memory later : Memory}
    (h : c.Accounts said memory later) (hmem : name ∈ Keyed.names (c.known memory))
    (hkept : ∀ e ∈ said, ¬ c.Drops name e) : name ∈ Keyed.names (c.known later) := by
  obtain ⟨entry, hentry, rfl⟩ := List.mem_map.1 hmem
  by_contra hgone
  obtain ⟨e, he, hdrops⟩ := h.gone entry.1 entry.2 hentry fun h => hgone (Keyed.mem_names_of_mem h)
  exact hkept e he hdrops

theorem Holds.nil (c : Collection) (memory : Memory) : c.Holds [] memory := by
  intro front e back name heq
  simp at heq

/-- The members that were written are in the index, also when the next one cannot be written. -/
theorem writes_hold (writable : c.Writable w.memory) (members : Keyed Json) :
    ∃ said, w.Said said (c.setState remote.traced (.obj members) w).2 ∧
      c.Holds said (c.setState remote.traced (.obj members) w).2.memory := by
  have written (members : Keyed Json) : Traced remote.traced c (fun _ _ => True)
      (c.setState remote.traced (.obj members)) fun _ _ _ => True :=
    setState_traced remote.traced c (.obj members)
  change ∃ said,
    w.Said said (members.forM (fun entry => c.setItem remote.traced entry.1 entry.2) w).2 ∧
      c.Holds said (members.forM (fun entry => c.setItem remote.traced entry.1 entry.2) w).2.memory
  induction members generalizing w with
  | nil => exact ⟨[], .refl w, .nil c w.memory⟩
  | cons entry rest ih =>
    obtain ⟨said, fault | _, v, hrun, hsaid, hv, holds⟩ :=
      writable.setItem_holds remote entry.1 entry.2
    · rw [List.forM, bind_run_error hrun]
      exact ⟨said, hsaid, holds⟩
    · rw [List.forM, bind_run_ok hrun]
      obtain ⟨more, hmore, holds'⟩ := ih hv
      obtain ⟨more', trace, -⟩ := written rest v [] v .start trivial
      obtain rfl : more = more' := hmore.eq trace.kept
      exact ⟨said ++ more, hsaid.trans hmore,
        holds.append holds' fun name hname => trace.accounts.kept hname⟩

theorem setItem_holds (known : c.KnowsOwn w.memory) (name : String) (state : Json) :
    ∃ said, w.Said said (c.setItem remote.traced name state w).2 ∧
      c.Holds said (c.setItem remote.traced name state w).2.memory := by
  cases hpath : c.path w.memory with
  | error fault =>
    have hrun : c.setItem remote.traced name state w = (.error fault, w) :=
      bind_run_error (contains_run_error hpath name)
    rw [hrun]
    exact ⟨[], .refl w, .nil c w.memory⟩
  | ok path =>
    have writable : c.Writable w.memory := ⟨(path_eq_ok_iff.1 hpath).1, known⟩
    obtain ⟨said, result, v, hrun, hsaid, -, holds⟩ := writable.setItem_holds remote name state
    rw [hrun]
    exact ⟨said, hsaid, holds⟩

theorem setState_holds (known : c.KnowsOwn w.memory) (state : Json) :
    ∃ said, w.Said said (c.setState remote.traced state w).2 ∧
      c.Holds said (c.setState remote.traced state w).2.memory := by
  cases hstate : state.members? with
  | none =>
    rw [setState_unshaped hstate]
    exact ⟨[], .refl w, .nil c w.memory⟩
  | some members =>
    obtain rfl := Json.eq_obj_of_members? hstate
    cases hpath : c.path w.memory with
    | error fault =>
      rw [setState_unlocated hpath]
      exact ⟨[], .refl w, .nil c w.memory⟩
    | ok path => exact writes_hold remote ⟨(path_eq_ok_iff.1 hpath).1, known⟩ members

end

end Collection

end

end SettingsTree
