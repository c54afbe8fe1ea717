import SettingsTree.Proofs.Session.Failure
import SettingsTree.Proofs.Session.Follow

/-! # Failures pass through

Whatever callers do, a call that fails is the last one, its fault is what they see, and what is
remembered is as the calls before it left it.
-/

namespace SettingsTree

open Client

section

variable {σ α : Type} {remote : Remote σ} {reg later : Registry} {n : Node}
  {operation : Operation} {act : Client (List Exchange × σ) (Reply Node)}

/-! ### Where operations change indexes -/

namespace Collection

variable {c : Collection} {x : Client (List Exchange × σ) α}

/-- What an operation does with a collection is a trace of it, and a member that it could not create
is not new in the index. -/
structure Hosts (remote : Remote σ) (c : Collection) (x : Client (List Exchange × σ) α) :
    Prop where
  traces : ∀ w, ∃ said, Trace remote.traced c w said (x w).2
  unadded : ∀ w said, w.Said said (x w).2 → ∀ e ∈ said, ¬ e.Succeeds → ∀ name member,
    e.call = .create c.place name → (name, member) ∈ c.known (x w).2.memory →
      (name, member) ∈ c.known w.memory

theorem traces_of_traced {post : α → List Exchange → Memory → Prop}
    (h : c.Traced remote.traced (fun _ _ => True) x post) (w : World (List Exchange × σ)) :
    ∃ said, Trace remote.traced c w said (x w).2 := by
  obtain ⟨said, trace, -⟩ := h w [] w .start trivial
  exact ⟨said, trace⟩

theorem Misses.not_mem {w : World (List Exchange × σ)} {said : List Exchange} (h : c.Misses x w)
    (hsaid : w.Said said (x w).2) {e : Exchange} (he : e ∈ said) (hfailed : ¬ e.Succeeds)
    {name : String} (hcall : e.call = .create c.place name) (member : Container) :
    (name, member) ∉ c.known (x w).2.memory := by
  obtain ⟨said', hsaid', -, hmisses⟩ := h
  rw [hsaid.eq hsaid'] at he
  intro hmem
  exact Keyed.get?_eq_none_iff.1 (hmisses e he hfailed name hcall) (Keyed.mem_names_of_mem hmem)

theorem hosts_of_misses {post : α → List Exchange → Memory → Prop}
    (h : c.Traced remote.traced (fun _ _ => True) x post) (hmisses : ∀ w, c.Misses x w) :
    c.Hosts remote x where
  traces := traces_of_traced h
  unadded w _ hsaid _ he hfailed _ member hcall hmem :=
    absurd hmem ((hmisses w).not_mem hsaid he hfailed hcall member)

theorem hosts_of_stops {post : α → List Exchange → Memory → Prop}
    (h : c.Traced remote.traced (fun _ _ => True) x post)
    (hstops : Stops (fun call => call.isCreate = false) x) : c.Hosts remote x :=
  hosts_of_misses h (misses_of_stops hstops c)

theorem Hosts.map {β : Type} (h : c.Hosts remote x) (f : α → β) : c.Hosts remote (f <$> x) where
  traces w := by
    rw [map_run]
    exact h.traces w
  unadded w := by
    rw [map_run]
    exact h.unadded w

theorem create_hosts (c : Collection) (name : String) :
    c.Hosts remote (c.create remote.traced name) where
  traces := traces_of_traced (create_traced remote.traced c name)
  unadded _ _ hsaid _ he hfailed _ _ _ hmem := (create_memory hsaid he hfailed).1 ▸ hmem

theorem setState_hosts (c : Collection) (state : Json) :
    c.Hosts remote (c.setState remote.traced state) :=
  hosts_of_misses (setState_traced remote.traced c state) (c.setState_misses state)

theorem perform_hosts (h : (Node.collection c).perform remote.traced operation = some act) :
    c.Hosts remote act := by
  have htraced := perform_traced h
  by_cases hcreates : operation.creates = true
  · cases operation with
    | create name => exact Option.some.inj h ▸ (c.create_hosts name).map _
    | setState state => exact Option.some.inj h ▸ (c.setState_hosts state).map _
    | setItem name state =>
      obtain rfl := Option.some.inj h
      exact (hosts_of_misses (setItem_traced remote.traced c name state)
        (c.setItem_misses name state)).map _
    | setAttribute => cases h
    | _ => cases hcreates
  · refine hosts_of_stops htraced ((Collection.perform_stops h).imp fun call hmakes => ?_)
    rw [← Bool.not_eq_true]
    exact fun hcall => hcreates (hmakes.1 hcall)

end Collection

/-- An operation changes nothing that is remembered, or what it does with a collection that an
object is or declares. -/
def Node.Touches (remote : Remote σ) (n : Node) (x : Client (List Exchange × σ) α) : Prop :=
  x.Quiet ∨ ∃ c : Collection, (∀ reg bound, n.Fits reg bound → c.Fits reg bound) ∧ c.Hosts remote x

theorem Container.perform_touches {c : Container}
    (h : (Node.container c).perform remote.traced operation = some act) :
    (Node.container c).Touches remote act := by
  cases operation with
  | self | lookup => exact Or.inl (Option.some.inj h ▸ .pure _)
  | path | typePath | child | collection | property | command =>
    exact Or.inl (Option.some.inj h ▸ .consult _)
  | getState => exact Or.inl (Option.some.inj h ▸ (getState_quiet c).map _)
  | setState state => exact Or.inl (Option.some.inj h ▸ (setState_quiet c state).map _)
  | getProperty name => exact Or.inl (Option.some.inj h ▸ (getPropertyState_quiet c name).map _)
  | setProperty name state =>
    exact Or.inl (Option.some.inj h ▸ (setPropertyState_quiet c name state).map _)
  | setAttribute name state =>
    obtain rfl := Option.some.inj h
    unfold setAttribute
    cases hlookup : c.lookup? name with
    | none => exact Or.inl (.map (.consult _) _)
    | some m =>
      cases m with
      | leaf l => exact Or.inl ((l.setState_quiet state).map _)
      | container d => exact Or.inl ((d.setState_quiet state).map _)
      | command k => exact Or.inl (.map (.consult _) _)
      | collection d =>
        have offers := offers_of_lookup? hlookup
        exact Or.inr ⟨d, fun _ _ hc => Container.Fits.offers hc offers,
          (d.setState_hosts state).map _⟩
  | _ => cases h

/-- Every operation of an object changes at most one index. -/
theorem Node.perform_touches (h : n.perform remote.traced operation = some act) :
    n.Touches remote act := by
  cases n with
  | container c => exact Container.perform_touches h
  | collection c => exact Or.inr ⟨c, fun _ _ hc => hc, Collection.perform_hosts h⟩
  | leaf l =>
    refine Or.inl ?_
    cases operation with
    | self => exact Option.some.inj h ▸ .pure _
    | path | owner => exact Option.some.inj h ▸ .consult _
    | getState => exact Option.some.inj h ▸ l.getState_quiet.map _
    | setState value => exact Option.some.inj h ▸ (l.setState_quiet value).map _
    | allowedValues => exact Option.some.inj h ▸ l.allowedValues_quiet.map _
    | _ => cases h
  | command c =>
    refine Or.inl ?_
    cases operation with
    | self => exact Option.some.inj h ▸ .pure _
    | path | owner => exact Option.some.inj h ▸ .consult _
    | invoke keywords => exact Option.some.inj h ▸ (c.invoke_quiet keywords).map _
    | _ => cases h

theorem Session.follow_touches (path : String) (n : Node) (step : Step) :
    n.Touches remote (follow remote.traced path n step) := by
  rcases follow_cases remote.traced path n step with
    ⟨c, d, name, rfl, offers, -, -, heq⟩ | ⟨c, m, -, -, -, -, heq⟩ | heq
  · rw [heq]
    refine Or.inr ⟨d, fun _ _ hc => Container.Fits.offers hc offers, .map ?_ _⟩
    exact Collection.hosts_of_stops (Collection.get_traced remote.traced d name)
      (Collection.get_stops fun _ => rfl)
  · exact Or.inl (heq ▸ .pure m)
  · exact Or.inl (heq ▸ .throw _)

/-! ### How operations go -/

variable {w v : World (List Exchange × σ)} {said : List Exchange}

/-- How an operation went: what was said, what came of it, and what became of memory. -/
structure Went (reg later : Registry) (w : World (List Exchange × σ)) (said : List Exchange)
    (result : Except ClientError α) (v : World (List Exchange × σ)) : Prop where
  log : w.Said said v
  stops : StopsAt said result
  grows : w.memory.Grows reg later v.memory
  changes : Memory.Changes later said w.memory v.memory
  /-- A member that could not be created is not new in the index. -/
  unadded : ∀ c : Collection, c.Fits later v.memory.fresh → ∀ e ∈ said, ¬ e.Succeeds →
    ∀ name member, e.call = .create c.place name → (name, member) ∈ c.known v.memory →
      (name, member) ∈ c.known w.memory
  /-- Nothing is said but the deletion, if there is one. -/
  deletes : ∀ e ∈ said, e.call.isDelete → said.length ≤ 1

theorem Went.map {β : Type} {result : Except ClientError α} (h : Went reg later w said result v)
    (f : α → β) : Went reg later w said (result.map f) v :=
  { h with
    stops := fun e he fault hfault => by
      obtain ⟨hfront, hresult⟩ := h.stops e he fault hfault
      exact ⟨hfront, by rw [hresult]; rfl⟩ }

theorem Node.Touches.changes {x : Client (List Exchange × σ) α} (h : n.Touches remote x)
    (fits : n.Fits reg w.memory.fresh) (grows : w.memory.Grows reg later (x w).2.memory)
    (hsaid : w.Said said (x w).2) : Memory.Changes later said w.memory (x w).2.memory := by
  rcases h with quiet | ⟨c, hfits, hosts⟩
  · rw [quiet w]
    exact .refl later said w.memory
  · obtain ⟨said', trace⟩ := hosts.traces w
    obtain rfl : said = said' := hsaid.eq trace.kept
    exact .of_trace trace ((hfits reg _ fits).mono grows.agree grows.fresh_le)

theorem Node.Touches.unadded {x : Client (List Exchange × σ) α} (h : n.Touches remote x)
    (fits : n.Fits reg w.memory.fresh) (grows : w.memory.Grows reg later (x w).2.memory)
    (hsaid : w.Said said (x w).2) {c : Collection} (hc : c.Fits later (x w).2.memory.fresh)
    {e : Exchange} (he : e ∈ said) (hfailed : ¬ e.Succeeds) {name : String} {member : Container}
    (hcall : e.call = .create c.place name) (hmem : (name, member) ∈ c.known (x w).2.memory) :
    (name, member) ∈ c.known w.memory := by
  rcases h with quiet | ⟨d, hfits, hosts⟩
  · rwa [quiet w] at hmem
  · by_cases haddress : c.address = d.address
    · have hd := (hfits reg _ fits).mono grows.agree grows.fresh_le
      obtain rfl := hc.eq_of_address hd haddress
      exact hosts.unadded w said hsaid e he hfailed name member hcall hmem
    · obtain ⟨_, trace⟩ := hosts.traces w
      rwa [Collection.known, trace.changedAt.index _ haddress] at hmem

/-- An operation that may delete a member says nothing else. -/
theorem Node.perform_deletes (h : n.perform remote.traced operation = some act)
    (hdeletes : operation.deletes) (w : World (List Exchange × σ)) :
    ∃ said, w.Said said (act w).2 ∧ said.length ≤ 1 := by
  cases operation with
  | delete name =>
    cases n with
    | collection c =>
      obtain rfl := Option.some.inj h
      rw [map_run]
      obtain ⟨said, hsaid, asks⟩ := Collection.delete_asks remote c w name
      exact ⟨said, hsaid, asks.length_le⟩
    | container | leaf | command => cases h
  | _ => cases hdeletes

theorem Node.perform_went (h : n.perform remote.traced operation = some act)
    (sound : w.memory.Sound reg) (fits : n.Fits reg w.memory.fresh) :
    ∃ later said, Went reg later w said (act w).1 (act w).2 := by
  have touches := Node.perform_touches h
  obtain ⟨said, hsaid, hmakes, hstops⟩ := Node.perform_stops h w
  obtain ⟨later, grows, -⟩ := Node.perform_sane h reg w sound fits
  refine ⟨later, said, hsaid, hstops, grows, touches.changes fits grows hsaid, ?_, ?_⟩
  · exact fun c hc e he hfailed name member => touches.unadded fits grows hsaid hc he hfailed
  · intro e he hdelete
    obtain ⟨said', hsaid', hlength⟩ := Node.perform_deletes h ((hmakes e he).2 hdelete) w
    exact hsaid.eq hsaid' ▸ hlength

/-! ### What earlier calls entered -/

/-- What was created in a collection or written before a call failed is in its index. -/
theorem Collection.perform_holds {c : Collection} {front : List Exchange} {e : Exchange}
    (h : (Node.collection c).perform remote.traced operation = some act)
    (known : c.KnowsOwn w.memory) (hsaid : w.Said (front ++ [e]) (act w).2)
    (hfailed : ¬ e.Succeeds) : c.Holds (front ++ [e]) (act w).2.memory := by
  obtain ⟨said, hsaid', hgoes⟩ := perform_going (c := c) h rfl known
  obtain rfl := hsaid'.eq hsaid
  rcases hgoes.writes_or_asks with ⟨name, state, rfl⟩ | ⟨state, rfl⟩ | ⟨hlength, hunwritten⟩
  · obtain rfl := Option.some.inj h
    rw [map_run] at hsaid ⊢
    obtain ⟨said, hwritten, holds⟩ := setItem_holds remote known name state
    exact hsaid.eq hwritten ▸ holds
  · obtain rfl := Option.some.inj h
    rw [map_run] at hsaid ⊢
    obtain ⟨said, hwritten, holds⟩ := setState_holds remote known state
    exact hsaid.eq hwritten ▸ holds
  · rw [List.length_append, List.length_singleton] at hlength
    obtain rfl := List.length_eq_zero_iff.1 (Nat.le_zero.1 (Nat.le_of_succ_le_succ hlength))
    intro before told after name heq hused
    have htold : told ∈ [e] := by
      rw [← List.nil_append [e], heq]
      exact List.mem_append_right _ List.mem_cons_self
    obtain rfl := List.mem_singleton.1 htold
    rcases hused with hcreates | ⟨state, hcall⟩
    · exact absurd hcreates.succeeds hfailed
    · exact absurd hcall (hunwritten told List.mem_cons_self _ state)

theorem Container.setAttribute_holds {owner : Container} {c : Collection} {name : String}
    (hlookup : owner.lookup? name = some (.collection c)) (known : c.KnowsOwn w.memory)
    (state : Json) (hsaid : w.Said said (owner.setAttribute remote.traced name state w).2) :
    c.Holds said (owner.setAttribute remote.traced name state w).2.memory := by
  unfold setAttribute at *
  rw [hlookup] at hsaid ⊢
  obtain ⟨said', hwritten, holds⟩ := Collection.setState_holds remote known state
  exact hsaid.eq hwritten ▸ holds

namespace Session

/-- A call of a step enumerates a collection of the same session that is linked then. -/
theorem follow_enumerates {path : String} {step : Step} (sound : w.memory.Sound reg)
    (fits : n.Fits reg w.memory.fresh) (linked : n.home.Linked w.memory)
    (hsaid : w.Said said (follow remote.traced path n step w).2) {e : Exchange} (he : e ∈ said) :
    ∃ c : Collection, e.call = .memberNames c.place ∧ c.owner.session = n.home.session ∧
      c.owner.Linked (follow remote.traced path n step w).2.memory := by
  rcases follow_cases remote.traced path n step with
    ⟨c, d, name, rfl, hoffers, -, -, heq⟩ | ⟨c, m, -, -, -, -, heq⟩ | heq
  · have hd : d.Fits reg w.memory.fresh := Container.Fits.offers fits hoffers
    obtain rfl := hoffers.owner_of_collection
    rw [heq, map_run] at hsaid ⊢
    obtain ⟨said', hsaid', hgoes⟩ : d.Going d.descriptor (.get name) _ w :=
      Collection.get_going remote (sound.knowsOwn hd) name
    rw [map_run] at hsaid'
    obtain rfl := hsaid.eq hsaid'
    obtain ⟨_, trace⟩ := Collection.traces_of_traced (Collection.get_traced remote.traced d name) w
    have hbelow : d.owner.address.length ≤ d.address.length := by simp [Collection.address]
    exact ⟨d, hgoes.call_of_get e he, rfl, linked.of_changedAt trace.changedAt hbelow⟩
  · rw [heq] at hsaid
    rw [hsaid.eq (.refl w)] at he
    exact absurd he List.not_mem_nil
  · rw [heq] at hsaid
    rw [hsaid.eq (.refl w)] at he
    exact absurd he List.not_mem_nil

/-- The way along a path ends with its first step if that fails. Otherwise the first step says what
succeeds, and the rest goes on from where it leads. -/
theorem foldlM_follow_cons {path : String} {step : Step} {rest : List Step}
    (sound : w.memory.Sound reg) (fits : n.Fits reg w.memory.fresh)
    (hsaid : w.Said said ((step :: rest).foldlM (follow remote.traced path) n w).2) :
    ∃ first later, w.Said first (follow remote.traced path n step w).2 ∧
      w.memory.Grows reg later (follow remote.traced path n step w).2.memory ∧
      ((said = first ∧ ((step :: rest).foldlM (follow remote.traced path) n w).2 =
          (follow remote.traced path n step w).2) ∨
        ∃ m more v, follow remote.traced path n step w = (.ok m, v) ∧
          m.Fits later v.memory.fresh ∧ (∀ e ∈ first, e.Succeeds) ∧ said = first ++ more ∧
          v.Said more (rest.foldlM (follow remote.traced path) m v).2 ∧
          (step :: rest).foldlM (follow remote.traced path) n w =
            rest.foldlM (follow remote.traced path) m v) := by
  have stops (m : Node) (step : Step) :
      Stops (fun _ => True) (follow remote.traced path m step) :=
    follow_stops path m step fun _ => trivial
  rw [List.foldlM_cons] at hsaid ⊢
  obtain ⟨first, hfirst, -, hstops⟩ := stops n step w
  obtain ⟨later, grows, hfits⟩ := follow_sane remote.traced path n step reg w sound fits
  refine ⟨first, later, hfirst, grows, ?_⟩
  rcases hrun : follow remote.traced path n step w with ⟨fault | m, v⟩ <;>
    rw [hrun] at hfirst hstops hfits
  · rw [bind_run_error hrun] at hsaid ⊢
    exact Or.inl ⟨hsaid.eq hfirst, rfl⟩
  · rw [bind_run_ok hrun] at hsaid ⊢
    have whole : Stops (fun _ => True) (rest.foldlM (follow remote.traced path) m) :=
      .foldlM stops
    obtain ⟨more, hmore, -, -⟩ := whole v
    exact Or.inr ⟨m, more, v, rfl, (hfits m rfl).1, hstops.succeeds,
      hsaid.eq (hfirst.trans hmore), hmore, rfl⟩

/-- Where a path cannot be followed to its end, the members on the way are in their indexes. -/
theorem foldlM_follow_fails {path : String} {steps : List Step} (sound : w.memory.Sound reg)
    (fits : n.Fits reg w.memory.fresh) (linked : n.home.Linked w.memory)
    (hsaid : w.Said said (steps.foldlM (follow remote.traced path) n w).2) {e : Exchange}
    (he : e ∈ said) (hfailed : ¬ e.Succeeds) :
    ∃ c : Collection, e.call = .memberNames c.place ∧ c.owner.session = n.home.session ∧
      c.owner.Linked (steps.foldlM (follow remote.traced path) n w).2.memory := by
  induction steps generalizing reg n w said with
  | nil =>
    rw [hsaid.eq (.refl w)] at he
    exact absurd he List.not_mem_nil
  | cons step rest ih =>
    obtain ⟨first, later, hfirst, grows, ⟨rfl, heq⟩ |
      ⟨m, more, v, hrun, hfits, succeeds, rfl, hmore, heq⟩⟩ := foldlM_follow_cons sound fits hsaid
    · rw [heq]
      exact follow_enumerates sound fits linked hfirst he
    · rw [heq]
      rw [hrun] at grows
      rcases List.mem_append.1 he with he | he
      · exact absurd (succeeds e he) hfailed
      · obtain ⟨hlinked, -, hsession⟩ := follow_linked sound fits linked hrun
        exact hsession ▸ ih grows.sound hfits hlinked hmore he

theorem resolve_fails {s : Session} {path : String} (sound : w.memory.Sound reg)
    (fits : s.root.Fits reg w.memory.fresh) (linked : s.root.Linked w.memory)
    (hsaid : w.Said said (s.resolve remote.traced path w).2) {e : Exchange} (he : e ∈ said)
    (hfailed : ¬ e.Succeeds) :
    ∃ c : Collection, e.call = .memberNames c.place ∧ c.owner.session = s.number ∧
      c.owner.Linked (s.resolve remote.traced path w).2.memory := by
  rcases resolve_cases remote.traced s path with ⟨rest, -, -, heq⟩ | ⟨fault, heq⟩
  · rw [heq] at hsaid ⊢
    exact foldlM_follow_fails (n := .container s.root) sound fits linked hsaid he hfailed
  · rw [heq, throw_run] at hsaid
    rw [hsaid.eq (.refl w)] at he
    exact absurd he List.not_mem_nil

/-- Each step on the way accounts for its changes, and so does the whole way. -/
theorem foldlM_follow_changes (path : String) (steps : List Step) (sound : w.memory.Sound reg)
    (fits : n.Fits reg w.memory.fresh)
    (hsaid : w.Said said (steps.foldlM (follow remote.traced path) n w).2) :
    ∃ later, w.memory.Grows reg later (steps.foldlM (follow remote.traced path) n w).2.memory ∧
      Memory.Changes later said w.memory
        (steps.foldlM (follow remote.traced path) n w).2.memory := by
  induction steps generalizing reg n w said with
  | nil => exact ⟨reg, .refl sound, .refl reg said w.memory⟩
  | cons step rest ih =>
    obtain ⟨first, later, hfirst, grows, hrest⟩ := foldlM_follow_cons sound fits hsaid
    have changes := (follow_touches path n step).changes fits grows hfirst
    rcases hrest with ⟨rfl, heq⟩ | ⟨m, more, v, hrun, hfits, -, rfl, hmore, heq⟩ <;> rw [heq]
    · exact ⟨later, grows, changes⟩
    · rw [hrun] at grows changes
      obtain ⟨last, grows', changes'⟩ := ih grows.sound hfits hmore
      exact ⟨last, grows.trans grows', changes.trans changes' grows'.agree grows'.fresh_le⟩

theorem resolve_went {s : Session} (path : String) (sound : w.memory.Sound reg)
    (fits : s.root.Fits reg w.memory.fresh) :
    ∃ later said, Went reg later w said (s.resolve remote.traced path w).1
      (s.resolve remote.traced path w).2 := by
  have stops : Stops (fun call => ¬ call.isCreate ∧ ¬ call.isDelete)
      (s.resolve remote.traced path) := resolve_stops s path fun _ => ⟨nofun, nofun⟩
  obtain ⟨said, hsaid, hcalls, hstops⟩ := stops w
  have changed : ∃ later, w.memory.Grows reg later (s.resolve remote.traced path w).2.memory ∧
      Memory.Changes later said w.memory (s.resolve remote.traced path w).2.memory := by
    rcases resolve_cases remote.traced s path with ⟨rest, -, -, heq⟩ | ⟨fault, heq⟩
    · rw [heq] at hsaid ⊢
      exact foldlM_follow_changes (n := .container s.root) path rest sound fits hsaid
    · rw [heq, throw_run]
      exact ⟨reg, .refl sound, .refl reg said w.memory⟩
  obtain ⟨later, grows, changes⟩ := changed
  refine ⟨later, said, hsaid, hstops, grows, changes, ?_, ?_⟩
  · intro c _ e he _ name member hcall
    have hplain := (hcalls e he).1
    rw [hcall] at hplain
    exact absurd rfl hplain
  · exact fun e he hdelete => absurd hdelete (hcalls e he).2

end Session

/-! ### Actions -/

def Outcome.fault? : Outcome → Option ClientError
  | .failed fault => some fault
  | .connected _ (.error fault) => some fault
  | _ => none

/-- How callers find things when a call failed after others had succeeded. -/
structure World.Survives (w v : World (List Exchange × σ)) (front : List Exchange) (e : Exchange) :
    Prop where
  succeeded : ∀ e' ∈ front, e'.Succeeds
  sessions : v.memory.sessions = w.memory.sessions
  objects : v.memory.objects = w.memory.objects
  /-- A first call that fails changes nothing. -/
  first : front = [] → v.memory = w.memory
  /-- A deletion that fails changes nothing. -/
  deletion : ∀ path, e.call = .delete path → v.memory = w.memory
  /-- For every collection, the calls that succeeded account for what became of its index, and a
  member that could not be created is not new in it. -/
  indexes : ∃ reg, v.memory.Sound reg ∧ ∀ c : Collection, c.Fits reg v.memory.fresh →
    c.Accounts front w.memory v.memory ∧
      ∀ name member, e.call = .create c.place name → (name, member) ∈ c.known v.memory →
        (name, member) ∈ c.known w.memory

/-- The collection that an action works with: one that callers keep, or one that a container that
they keep declares under the name that is set. -/
inductive Action.Uses (memory : Memory) (c : Collection) : Action → Prop
  | kept {object : String} (h : memory.object? object = some (.collection c))
      (operation : Operation) (keep : Option String) : Uses memory c (.apply object operation keep)
  | declared {object name : String} {owner : Container}
      (h : memory.object? object = some (.container owner))
      (hlookup : owner.lookup? name = some (.collection c)) (state : Json) (keep : Option String) :
      Uses memory c (.apply object (.setAttribute name state) keep)

/-- What an action entered is still in the indexes when a call fails. -/
structure Action.Leaves (action : Action) (w v : World (List Exchange × σ)) (said : List Exchange)
    (e : Exchange) : Prop where
  /-- A member that was created or written is in the index, unless it was dropped since. -/
  used : ∀ c, action.Uses w.memory c → c.Holds said v.memory
  /-- The members on the way to a collection that cannot be enumerated are in their indexes. -/
  followed : ∀ session path keep, action = .resolve session path keep →
    ∃ s, Keyed.get? session w.memory.sessions = some s ∧ ∃ c : Collection,
      e.call = .memberNames c.place ∧ c.owner.session = s.number ∧ c.owner.Linked v.memory

theorem World.Survives.of_memory_eq {e : Exchange} (sound : w.memory.Sound reg)
    (h : v.memory = w.memory) : w.Survives v [] e where
  succeeded e' he' := absurd he' List.not_mem_nil
  sessions := congrArg Memory.sessions h
  objects := congrArg Memory.objects h
  first _ := h
  deletion _ _ := h
  indexes := by
    refine ⟨reg, h ▸ sound, fun c _ => ⟨.of_index_eq (by rw [h]), fun name member _ hmem => ?_⟩⟩
    rwa [h] at hmem

theorem World.Said.not_mem_of_eq {e : Exchange} (hsaid : w.Said said v) (h : v.remote = w.remote) :
    e ∉ said := by
  have hnone : w.Said [] v := by rw [World.Said, h, List.append_nil]
  rw [hsaid.eq hnone]
  exact List.not_mem_nil

theorem Went.survives {result : Except ClientError α} (h : Went reg later w said result v)
    {e : Exchange} (he : e ∈ said) {fault : TransportError} (hfault : e.answer = .error fault) :
    result = .error (.transport fault) ∧ ∃ front, said = front ++ [e] ∧ w.Survives v front e := by
  have hfailed := Exchange.not_succeeds hfault
  obtain ⟨⟨front, rfl, succeeded⟩, hresult⟩ := h.stops e he fault hfault
  have first (hfront : front = []) : v.memory = w.memory := by
    refine h.changes.unchanged fun e' he' => ?_
    rw [hfront, List.nil_append, List.mem_singleton] at he'
    exact he' ▸ hfailed
  refine ⟨hresult, front, rfl, succeeded, h.grows.sessions, h.grows.objects, first, ?_, ?_⟩
  · intro path hcall
    have hlength := h.deletes e he (by rw [hcall]; rfl)
    rw [List.length_append, List.length_singleton] at hlength
    exact first (List.length_eq_zero_iff.1 (by omega))
  · refine ⟨later, h.grows.sound, fun c fits => ⟨?_, fun name member hcall hmem => ?_⟩⟩
    · refine (h.changes.accounts fits).mono fun e' he' hsucceeds => ?_
      rcases List.mem_append.1 he' with he' | he'
      · exact he'
      · exact absurd (List.mem_singleton.1 he' ▸ hsucceeds) hfailed
    · exact h.unadded c fits e he hfailed name member hcall hmem

namespace Action

variable {outcome : Outcome} {e : Exchange} {fault : TransportError}

theorem keepObject_remote (name : Option String)
    (result : Except ClientError (Reply Node) × World (List Exchange × σ)) :
    (keepObject name result).2.remote = result.2.remote := by
  rcases result with ⟨fault | reply, v⟩
  · rfl
  · unfold keepObject
    dsimp only
    split <;> rfl

theorem survives_of_went {result : Except ClientError (Reply Node)} {name : Option String}
    (h : Went reg later w said result v) {said' : List Exchange}
    (hsaid : w.Said said' (keepObject name (result, v)).2) (he : e ∈ said')
    (hfault : e.answer = .error fault) :
    keepObject name (result, v) = (.failed (.transport fault), v) ∧
      ∃ front, said' = front ++ [e] ∧ w.Survives v front e := by
  have hsame : w.Said said' v := by
    rw [World.Said, ← keepObject_remote name (result, v)]
    exact hsaid
  obtain rfl := hsame.eq h.log
  obtain ⟨rfl, survives⟩ := h.survives he hfault
  exact ⟨rfl, survives⟩

theorem keepSession_remote (name : String) (reports : List Fallback)
    (result : Except ClientError Session × World (List Exchange × σ)) :
    (keepSession name reports result).2.remote = result.2.remote := by
  rcases result with ⟨fault | s, v⟩ <;> rfl

/-- To connect takes one call. If it fails, that is what comes of it, and nothing is remembered. -/
theorem connectWith_fails {config : Config} {shipped : Option Compiled}
    (hsaid : w.Said said (Session.connectWith remote.traced config shipped w).2) (he : e ∈ said)
    (hfault : e.answer = .error fault) :
    said = [e] ∧ (Session.connectWith remote.traced config shipped w).1 =
        ([], .error (.transport fault)) ∧
      (Session.connectWith remote.traced config shipped w).2.memory = w.memory := by
  have hrun := Session.connectWith_run remote.traced config shipped w
  have hlog : w.Said [remote.exchange (.staticInfo config.schemaCategory) w.remote.2]
      (Session.connectWith remote.traced config shipped w).2 := by
    rw [World.Said, hrun]
    dsimp only
    split <;> rfl
  obtain rfl := hsaid.eq hlog
  rw [List.mem_singleton] at he
  subst he
  have hanswer : (remote.traced.call (.staticInfo config.schemaCategory) w.remote).1 =
      .error fault := hfault
  rw [hrun]
  dsimp only
  rw [hanswer]
  exact ⟨rfl, rfl, rfl⟩

/-- The same holds when a configuration says how to connect. Without a usable schema file nothing is
said. -/
theorem connect_fails {config : Config} {files : String → Option String}
    (hsaid : w.Said said (Session.connect remote.traced config files w).2) (he : e ∈ said)
    (hfault : e.answer = .error fault) :
    said = [e] ∧ (Session.connect remote.traced config files w).1 = .error (.transport fault) ∧
      (Session.connect remote.traced config files w).2.memory = w.memory := by
  unfold Session.connect at *
  cases hshipped : Session.shippedSchema config files with
  | error cause =>
    rw [hshipped] at hsaid
    exact absurd he (hsaid.not_mem_of_eq rfl)
  | ok shipped =>
    rw [hshipped] at hsaid
    obtain ⟨hone, hresult, hmemory⟩ := connectWith_fails hsaid he hfault
    exact ⟨hone, congrArg Prod.snd hresult, hmemory⟩

theorem survives_of_fails {result : Except ClientError Session × World (List Exchange × σ)}
    {name : String} {reports : List Fallback} (sound : w.memory.Sound reg)
    (hsaid : w.Said said (keepSession name reports result).2) (he : e ∈ said)
    (hfails : w.Said said result.2 → said = [e] ∧ result.1 = .error (.transport fault) ∧
      result.2.memory = w.memory) :
    (keepSession name reports result).1.fault? = some (.transport fault) ∧
      ∃ front, said = front ++ [e] ∧ w.Survives (keepSession name reports result).2 front e := by
  have hlog : w.Said said result.2 := by
    rw [World.Said, ← keepSession_remote name reports result]
    exact hsaid
  obtain ⟨rfl, hresult, hmemory⟩ := hfails hlog
  obtain ⟨made, u⟩ := result
  obtain rfl : made = .error (.transport fault) := hresult
  exact ⟨rfl, [], rfl, .of_memory_eq sound hmemory⟩

theorem resolve_survives {session path : String} {name : Option String}
    (sound : w.memory.Sound reg)
    (hsaid : w.Said said ((resolve session path name).perform remote.traced w).2) (he : e ∈ said)
    (hfault : e.answer = .error fault) :
    ((resolve session path name).perform remote.traced w).1.fault? = some (.transport fault) ∧
      ∃ front, said = front ++ [e] ∧
        w.Survives ((resolve session path name).perform remote.traced w).2 front e ∧
        (resolve session path name).Leaves w
          ((resolve session path name).perform remote.traced w).2 said e := by
  unfold perform at hsaid ⊢
  dsimp only at hsaid ⊢
  cases hs : Keyed.get? session w.memory.sessions with
  | none =>
    rw [hs] at hsaid
    exact absurd he (hsaid.not_mem_of_eq rfl)
  | some s =>
    rw [hs] at hsaid
    dsimp only at hsaid ⊢
    rw [map_run] at hsaid ⊢
    have fits := sound.sessions session s (Keyed.mem_of_get? hs)
    obtain ⟨later, said', went⟩ := Session.resolve_went path sound fits
    obtain ⟨heq, front, rfl, survives⟩ := survives_of_went (went.map _) hsaid he hfault
    rw [heq] at hsaid ⊢
    refine ⟨rfl, front, rfl, survives, nofun, ?_⟩
    rintro _ _ _ ⟨⟩
    exact ⟨s, hs, Session.resolve_fails sound fits (Session.linked_of_kept hs) hsaid he
      (Exchange.not_succeeds hfault)⟩

theorem apply_survives {object : String} {operation : Operation} {name : Option String}
    (sound : w.memory.Sound reg)
    (hsaid : w.Said said ((apply object operation name).perform remote.traced w).2) (he : e ∈ said)
    (hfault : e.answer = .error fault) :
    ((apply object operation name).perform remote.traced w).1.fault? = some (.transport fault) ∧
      ∃ front, said = front ++ [e] ∧
        w.Survives ((apply object operation name).perform remote.traced w).2 front e ∧
        (apply object operation name).Leaves w
          ((apply object operation name).perform remote.traced w).2 said e := by
  unfold perform at hsaid ⊢
  dsimp only at hsaid ⊢
  cases hn : w.memory.object? object with
  | none =>
    rw [hn] at hsaid
    exact absurd he (hsaid.not_mem_of_eq rfl)
  | some n =>
    rw [hn] at hsaid
    dsimp only at hsaid ⊢
    cases hact : n.perform remote.traced operation with
    | none =>
      rw [hact] at hsaid
      exact absurd he (hsaid.not_mem_of_eq rfl)
    | some act =>
      rw [hact] at hsaid
      dsimp only at hsaid ⊢
      obtain ⟨later, said', went⟩ := Node.perform_went hact sound (sound.object? hn)
      obtain ⟨heq, front, rfl, survives⟩ := survives_of_went went hsaid he hfault
      change keepObject name (act w) = _ at heq
      rw [heq] at hsaid ⊢
      refine ⟨rfl, front, rfl, survives, fun c huses => ?_, nofun⟩
      cases huses with
      | kept h =>
        obtain rfl := Option.some.inj (hn.symm.trans h)
        exact Collection.perform_holds hact (sound.knowsOwn (sound.object? hn)) hsaid
          (Exchange.not_succeeds hfault)
      | declared h hlookup state =>
        obtain rfl := Option.some.inj (hn.symm.trans h)
        obtain rfl := Option.some.inj hact
        have fits : Collection.Fits reg w.memory.fresh _ :=
          Container.Fits.offers (sound.object? hn) (Container.offers_of_lookup? hlookup)
        rw [map_run] at hsaid ⊢
        exact Container.setAttribute_holds hlookup (sound.knowsOwn fits) state hsaid

end Action

/-- Whatever callers do in a world that they can reach, and whichever calls fail: if a call fails in
an action, then it is the last one, and the action ends with its fault as it is. What is remembered
then differs only on account of the calls that succeeded before: what callers keep is the same,
nothing differs if the failed call was the first one or a deletion, a member left or entered an
index and an index was synchronised only on account of such a call, and a member that could not be
created is not new in its index. What those calls entered stays: members that were created or
written, and those on the way that a path has led. -/
theorem failures_pass_through (reachable : w.Reachable remote.traced) {action : Action}
    {outcome : Outcome} (acted : action.perform remote.traced w = (outcome, v))
    (hsaid : w.Said said v) {e : Exchange} (he : e ∈ said) {fault : TransportError}
    (hfault : e.answer = .error fault) :
    outcome.fault? = some (.transport fault) ∧
      ∃ front, said = front ++ [e] ∧ w.Survives v front e ∧ action.Leaves w v said e := by
  obtain ⟨reg, sound⟩ := reachable.sound
  obtain rfl : (action.perform remote.traced w).1 = outcome := by rw [acted]
  obtain rfl : (action.perform remote.traced w).2 = v := by rw [acted]
  cases action with
  | adopt | drop => exact absurd he (hsaid.not_mem_of_eq rfl)
  | connectWith name config shipped =>
    obtain ⟨hended, front, heq, survives⟩ :=
      Action.survives_of_fails sound hsaid he fun hlog => by
        obtain ⟨hone, hresult, hmemory⟩ := Action.connectWith_fails hlog he hfault
        exact ⟨hone, congrArg Prod.snd hresult, hmemory⟩
    exact ⟨hended, front, heq, survives, nofun, nofun⟩
  | connect name config files =>
    obtain ⟨hended, front, heq, survives⟩ :=
      Action.survives_of_fails sound hsaid he fun hlog => Action.connect_fails hlog he hfault
    exact ⟨hended, front, heq, survives, nofun, nofun⟩
  | compare first second =>
    refine absurd he (hsaid.not_mem_of_eq ?_)
    unfold Action.perform
    dsimp only
    split <;> rfl
  | resolve session path name => exact Action.resolve_survives sound hsaid he hfault
  | apply object operation name => exact Action.apply_survives sound hsaid he hfault

end

/-! ### A remote that breaks down

Two members of a collection are written. The remote lists the first one; it breaks down when the
second one should be created.
-/

namespace Outage

/-- A remote that lists one member and agrees to everything, for a number of calls. -/
def remote : Remote Nat where
  call
    | _, 0 => (.error ⟨"down"⟩, 0)
    | call, more + 1 => (((Remote.agreeing fun s : Unit => (["a"], s)).call call ()).1, more)

def template : Descriptor := .container ⟨"T", "t", 0⟩ [] [] []

def schema : Compiled :=
  ⟨"", "", "Root", .container ⟨"Root", "root", 0⟩ [] [.collection ⟨"T", "t", 0⟩ template] []⟩

def items : Collection :=
  ⟨.root 0 schema.root, 0, .collection ⟨"T", "t", 0⟩ template⟩

/-- The collection is kept, and three calls are left. -/
def world : World (List Exchange × Nat) :=
  (Action.performAll remote.traced [.adopt "s" schema, .apply "s" (.collection "t") (some "items")]
    { remote := ([], 3) }).2

def write : Action := .apply "items" (.setState (.obj [("a", .obj []), ("b", .obj [])])) none

def front : List Exchange := [⟨.memberNames "/Root/T", .ok ["a"]⟩,
  ⟨.setState "/Root/T:a" (.obj []), .ok ()⟩, ⟨.memberNames "/Root/T", .ok ["a"]⟩]

def last : Exchange := ⟨.create "/Root/T" "b", .error ⟨"down"⟩⟩

end Outage

/-- The first member has entered the index, and the second one has not. -/
theorem Outage.passed_through :
    (write.perform remote.traced world).1.fault? = some (.transport ⟨"down"⟩) ∧
      world.Said (front ++ [last]) (write.perform remote.traced world).2 ∧
      world.Survives (write.perform remote.traced world).2 front last ∧
      items.Holds (front ++ [last]) (write.perform remote.traced world).2.memory ∧
      items.known (write.perform remote.traced world).2.memory = [("a", items.member "a" 1)] := by
  have reachable : world.Reachable remote.traced := ⟨_, _, rfl⟩
  have hsaid : world.Said (front ++ [last]) (write.perform remote.traced world).2 := rfl
  have acted : write.perform remote.traced world =
      ((write.perform remote.traced world).1, (write.perform remote.traced world).2) := rfl
  have hlast : last ∈ front ++ [last] := List.mem_append_right _ List.mem_cons_self
  obtain ⟨hfault, front', heq, survives, leaves⟩ :=
    failures_pass_through reachable acted hsaid hlast rfl
  obtain ⟨rfl, -⟩ := List.append_inj' heq rfl
  have used : write.Uses world.memory items := .kept rfl _ _
  exact ⟨hfault, hsaid, survives, leaves.used items used, rfl⟩

end SettingsTree
