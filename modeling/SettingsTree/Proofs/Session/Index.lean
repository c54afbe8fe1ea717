import SettingsTree.Proofs.Keyed
import SettingsTree.Proofs.Session.Client
import SettingsTree.Session.Collection

/-! # What operations do to an index

All that ever happens to the index of a collection is that an enumeration drops members from it,
that a member enters it when it is first used, and that a deleted member is dropped. Nothing else
that is remembered changes, but for the number that the new member takes.
-/

namespace SettingsTree

/-! ### Indexes in memory -/

namespace Memory

variable {memory : Memory} {address other : Address}

@[simp] theorem index_setIndex_self (memory : Memory) (address : Address) (index : Index) :
    (memory.setIndex address index).index address = index := by
  simp [Memory.index, setIndex]

theorem index_setIndex_ne (h : other ≠ address) (index : Index) :
    (memory.setIndex address index).index other = memory.index other := by
  have hhead : decide (address = other) = false := by simpa using Ne.symm h
  have hrest : (fun entry : Address × Index =>
      !decide (entry.1 = address) && decide (entry.1 = other)) =
        fun entry => decide (entry.1 = other) := by
    funext entry
    by_cases he : entry.1 = other
    · simp [he, h]
    · simp [he]
  simp [Memory.index, setIndex, hhead, hrest]

/-- At most the index of one collection is another one, and more numbers may have been given out. -/
structure ChangedAt (address : Address) (memory later : Memory) : Prop where
  sessions : later.sessions = memory.sessions
  objects : later.objects = memory.objects
  fresh : memory.fresh ≤ later.fresh
  index : ∀ other, other ≠ address → later.index other = memory.index other

theorem ChangedAt.refl (address : Address) (memory : Memory) : ChangedAt address memory memory :=
  ⟨rfl, rfl, Nat.le_refl _, fun _ _ => rfl⟩

theorem ChangedAt.trans {middle later : Memory} (h : ChangedAt address memory middle)
    (h' : ChangedAt address middle later) : ChangedAt address memory later where
  sessions := h'.sessions.trans h.sessions
  objects := h'.objects.trans h.objects
  fresh := Nat.le_trans h.fresh h'.fresh
  index other hne := (h'.index other hne).trans (h.index other hne)

theorem changedAt_setIndex (memory : Memory) (address : Address) (index : Index) :
    ChangedAt address memory (memory.setIndex address index) :=
  ⟨rfl, rfl, Nat.le_refl _, fun _ hne => index_setIndex_ne hne index⟩

end Memory

/-! ### Members of a collection -/

namespace Collection

variable {σ : Type} {remote : Remote σ} {c : Collection} {name other : String} {names : List String}
  {memory : Memory}

def known (c : Collection) (memory : Memory) : Keyed Container := (memory.index c.address).members

/-- What is remembered after an enumeration. -/
def retain (c : Collection) (names : List String) (memory : Memory) : Memory :=
  memory.setIndex c.address ⟨.synced, (c.known memory).filter fun entry => names.contains entry.1⟩

/-- What is remembered after a member was deleted. -/
def forget (c : Collection) (name : String) (memory : Memory) : Memory :=
  memory.setIndex c.address
    { memory.index c.address with members := Keyed.erase name (c.known memory) }

/-- The object that stands for the member of a name: the one in the index, or else a new one. -/
def memberFor (c : Collection) (name : String) (memory : Memory) : Container :=
  (Keyed.get? name (c.known memory)).getD (c.member name memory.fresh)

/-- What is remembered after a member was used. -/
def enter (c : Collection) (name : String) (memory : Memory) : Memory :=
  match Keyed.get? name (c.known memory) with
  | some _ => memory
  | none =>
    Memory.setIndex { memory with fresh := memory.fresh + 1 } c.address
      { memory.index c.address with
        members := Keyed.insert name (c.member name memory.fresh) (c.known memory) }

@[simp] theorem known_retain (c : Collection) (names : List String) (memory : Memory) :
    c.known (c.retain names memory) =
      (c.known memory).filter fun entry => names.contains entry.1 := by
  rw [known, retain, Memory.index_setIndex_self]

@[simp] theorem known_forget (c : Collection) (name : String) (memory : Memory) :
    c.known (c.forget name memory) = Keyed.erase name (c.known memory) := by
  rw [known, forget, Memory.index_setIndex_self]

theorem enter_of_known {member : Container} (h : Keyed.get? name (c.known memory) = some member) :
    c.enter name memory = memory ∧ c.memberFor name memory = member := by
  simp [enter, memberFor, h]

/-- A member that is not in the index enters it at the end, as a new object. -/
theorem enter_of_unknown (h : Keyed.get? name (c.known memory) = none) :
    c.known (c.enter name memory) = c.known memory ++ [(name, c.member name memory.fresh)] ∧
      c.memberFor name memory = c.member name memory.fresh ∧
      (c.enter name memory).fresh = memory.fresh + 1 := by
  refine ⟨?_, by simp [memberFor, h], ?_⟩
  · rw [known, enter, h]
    dsimp only
    rw [Memory.index_setIndex_self, Keyed.insert_of_not_mem (Keyed.get?_eq_none_iff.1 h)]
  · rw [enter, h]
    rfl

theorem mem_known_enter {entry : String × Container} (h : entry ∈ c.known (c.enter name memory)) :
    entry ∈ c.known memory ∨
      entry = (name, c.member name memory.fresh) ∧ memory.fresh < (c.enter name memory).fresh := by
  cases hget : Keyed.get? name (c.known memory) with
  | some member =>
    rw [(enter_of_known hget).1] at h
    exact Or.inl h
  | none =>
    obtain ⟨hknown, -, hfresh⟩ := enter_of_unknown hget
    rw [hknown, List.mem_append, List.mem_singleton] at h
    rcases h with h | h
    · exact Or.inl h
    · exact Or.inr ⟨h, by omega⟩

/-- Nothing but members of its own is in the index of a collection, each under its name. -/
def KnowsOwn (c : Collection) (memory : Memory) : Prop :=
  ∀ name member, (name, member) ∈ c.known memory → ∃ serial, member = c.member name serial

namespace KnowsOwn

theorem retain (h : c.KnowsOwn memory) (names : List String) :
    c.KnowsOwn (c.retain names memory) := by
  intro name member hmem
  rw [known_retain] at hmem
  exact h name member (List.mem_of_mem_filter hmem)

theorem enter (h : c.KnowsOwn memory) (name : String) : c.KnowsOwn (c.enter name memory) := by
  intro other member hmem
  rcases mem_known_enter hmem with hmem | ⟨heq, -⟩
  · exact h other member hmem
  · obtain ⟨rfl, rfl⟩ := Prod.mk.inj heq
    exact ⟨_, rfl⟩

theorem memberFor (h : c.KnowsOwn memory) (name : String) :
    ∃ serial, c.memberFor name memory = c.member name serial := by
  unfold Collection.memberFor
  cases hget : Keyed.get? name (c.known memory) with
  | none => exact ⟨_, rfl⟩
  | some member => exact h name member (Keyed.mem_of_get? hget)

end KnowsOwn

theorem get?_known_enter (c : Collection) (name other : String) (memory : Memory) :
    Keyed.get? other (c.known (c.enter name memory)) =
      if other = name then some (c.memberFor name memory)
      else Keyed.get? other (c.known memory) := by
  cases hget : Keyed.get? name (c.known memory) with
  | some member =>
    obtain ⟨henter, hmember⟩ := enter_of_known hget
    rw [henter, hmember]
    split
    · next h => rw [h, hget]
    · rfl
  | none =>
    obtain ⟨hknown, hmember, -⟩ := enter_of_unknown hget
    rw [hknown, hmember, Keyed.get?_append, Keyed.get?_cons, Keyed.get?_nil]
    by_cases h : other = name
    · simp [h, hget]
    · simp [h, Ne.symm h]

theorem mem_names_enter (c : Collection) (name : String) (memory : Memory) :
    name ∈ Keyed.names (c.known (c.enter name memory)) := by
  have hget := get?_known_enter c name name memory
  rw [if_pos rfl] at hget
  exact Keyed.mem_names_of_mem (Keyed.mem_of_get? hget)

theorem get?_known_retain (c : Collection) (names : List String) (other : String)
    (memory : Memory) :
    Keyed.get? other (c.known (c.retain names memory)) =
      if other ∈ names then Keyed.get? other (c.known memory) else none := by
  rw [known_retain]
  split
  · next h =>
    refine Keyed.get?_filter fun entry _ hname => ?_
    simpa [hname] using h
  · next h =>
    rw [Keyed.get?_eq_none_iff, Keyed.names, List.mem_map]
    rintro ⟨entry, hentry, rfl⟩
    exact h (by simpa using (List.mem_filter.1 hentry).2)

theorem get?_known_forget (c : Collection) (name other : String) (memory : Memory) :
    Keyed.get? other (c.known (c.forget name memory)) =
      if other = name then none else Keyed.get? other (c.known memory) := by
  rw [known_forget, Keyed.get?_erase]

theorem changedAt_retain (c : Collection) (names : List String) (memory : Memory) :
    Memory.ChangedAt c.address memory (c.retain names memory) := by
  rw [retain]
  exact Memory.changedAt_setIndex _ _ _

theorem changedAt_forget (c : Collection) (name : String) (memory : Memory) :
    Memory.ChangedAt c.address memory (c.forget name memory) := by
  rw [forget]
  exact Memory.changedAt_setIndex _ _ _

theorem changedAt_enter (c : Collection) (name : String) (memory : Memory) :
    Memory.ChangedAt c.address memory (c.enter name memory) := by
  rw [enter]
  split
  · exact .refl _ _
  · have hfresh : Memory.ChangedAt c.address memory { memory with fresh := memory.fresh + 1 } :=
      ⟨rfl, rfl, Nat.le_succ _, fun _ _ => rfl⟩
    exact hfresh.trans (Memory.changedAt_setIndex _ _ _)

/-! ### Several members -/

/-- What is remembered after several members were used. -/
def enterAll (c : Collection) (names : List String) (memory : Memory) : Memory :=
  names.foldl (fun memory name => c.enter name memory) memory

@[simp] theorem enterAll_cons (c : Collection) (name : String) (names : List String)
    (memory : Memory) :
    c.enterAll (name :: names) memory = c.enterAll names (c.enter name memory) :=
  rfl

theorem get?_known_enterAll {member : Container}
    (h : Keyed.get? name (c.known memory) = some member)
    (names : List String) : Keyed.get? name (c.known (c.enterAll names memory)) = some member := by
  induction names generalizing memory with
  | nil => exact h
  | cons first rest ih =>
    apply ih
    rw [get?_known_enter]
    split
    · next heq => rw [memberFor, ← heq, h, Option.getD_some]
    · exact h

theorem memberFor_of_known {member : Container}
    (h : Keyed.get? name (c.known memory) = some member) : c.memberFor name memory = member := by
  rw [memberFor, h, Option.getD_some]

/-- The member that was used first is the member of its name also when others are used later. -/
theorem get?_known_enterAll_cons (c : Collection) (name : String) (names : List String)
    (memory : Memory) : Keyed.get? name (c.known (c.enterAll (name :: names) memory)) =
      some (c.memberFor name memory) := by
  rw [enterAll_cons]
  apply get?_known_enterAll
  rw [get?_known_enter, if_pos rfl]

theorem get?_known_enterAll_of_mem (h : name ∈ names) (memory : Memory) :
    Keyed.get? name (c.known (c.enterAll names memory)) =
      some (c.memberFor name (c.enterAll names memory)) := by
  induction names generalizing memory with
  | nil => exact absurd h List.not_mem_nil
  | cons first rest ih =>
    rcases List.mem_cons.1 h with rfl | h
    · have hknown := get?_known_enterAll_cons c name rest memory
      rw [hknown, memberFor_of_known hknown]
    · exact ih h _

/-! ### The operations that change an index -/

theorem cached_run (c : Collection) (name : String) (w : World σ) :
    c.cached name w =
      (.ok (c.memberFor name w.memory), { w with memory := c.enter name w.memory }) := by
  unfold cached
  rw [Client.bind_run]
  dsimp only [Client.consult_run]
  cases hget : Keyed.get? name (w.memory.index c.address).members with
  | some member =>
    obtain ⟨henter, hmember⟩ := enter_of_known hget
    rw [henter, hmember]
    rfl
  | none =>
    have hmember : c.memberFor name w.memory = c.member name w.memory.fresh := by
      simp [memberFor, known, hget]
    rw [hmember, enter, known, hget]
    rfl

/-- All members that are used are, at the end, the members of their names. -/
theorem mapM_cached_run (c : Collection) (names : List String) (w : World σ) :
    (names.mapM fun name => return (name, ← c.cached name) :
        Client σ (List (String × Container))) w =
      (.ok (names.map fun name => (name, c.memberFor name (c.enterAll names w.memory))),
        { w with memory := c.enterAll names w.memory }) := by
  induction names generalizing w with
  | nil => rfl
  | cons first rest ih =>
    have hfirst : (do return (first, ← c.cached first) : Client σ (String × Container)) w =
        (.ok (first, c.memberFor first w.memory), { w with memory := c.enter first w.memory }) := by
      rw [Client.bind_run, cached_run]
      rfl
    rw [List.mapM_cons, Client.bind_run_ok hfirst, Client.bind_run_ok (ih _), Client.pure_run,
      List.map_cons, memberFor_of_known (get?_known_enterAll_cons c first rest w.memory)]
    rfl

/-- An enumeration that fails changes nothing that is remembered. -/
theorem refresh_run {w : World σ} {path : String} (h : c.path w.memory = .ok path) :
    c.refresh remote w =
      ((remote.call (.memberNames path) w.remote).1.mapError .transport,
        { remote := (remote.call (.memberNames path) w.remote).2
          memory := match (remote.call (.memberNames path) w.remote).1 with
            | .ok names => c.retain names w.memory
            | .error _ => w.memory }) := by
  unfold refresh
  rw [Client.bind_run]
  simp only [Client.consult_run, h]
  rw [Client.bind_run, Client.ask_run]
  cases (remote.call (.memberNames path) w.remote).1 <;> rfl

theorem refresh_run_error {w : World σ} {fault : ClientError} (h : c.path w.memory = .error fault) :
    c.refresh remote w = (.error fault, w) := Client.consult_bind_error h

theorem contains_run_error {w : World σ} {fault : ClientError} (h : c.path w.memory = .error fault)
    (name : String) : c.contains remote name w = (.error fault, w) :=
  Client.bind_run_error (refresh_run_error h)

theorem contains_run {w : World σ} {path : String} (h : c.path w.memory = .ok path)
    (name : String) :
    c.contains remote name w =
      (((remote.call (.memberNames path) w.remote).1.map fun names => names.contains name).mapError
          .transport,
        { remote := (remote.call (.memberNames path) w.remote).2
          memory := match (remote.call (.memberNames path) w.remote).1 with
            | .ok names => c.retain names w.memory
            | .error _ => w.memory }) := by
  rw [contains, Client.bind_run, refresh_run h]
  cases (remote.call (.memberNames path) w.remote).1 <;> rfl

/-- A member that the remote does not have is not in the index afterwards. -/
theorem unknown_of_contains {w v : World σ} (h : c.contains remote name w = (.ok false, v)) :
    Keyed.get? name (c.known v.memory) = none := by
  cases hpath : c.path w.memory with
  | error fault =>
    rw [contains_run_error hpath] at h
    cases h
  | ok path =>
    rw [contains_run hpath] at h
    cases hanswer : (remote.call (.memberNames path) w.remote).1 with
    | error fault =>
      rw [hanswer] at h
      cases h
    | ok names =>
      rw [hanswer] at h
      obtain ⟨hname, rfl⟩ := Prod.mk.inj h
      have hnot : names.contains name = false := Except.ok.inj hname
      rw [get?_known_retain, if_neg]
      simpa using hnot

theorem delete_run_error {w : World σ} {fault : ClientError}
    (h : c.memberPath w.memory name = .error fault) : c.delete remote name w = (.error fault, w) :=
  Client.consult_bind_error h

theorem delete_run {w : World σ} {path : String} (h : c.memberPath w.memory name = .ok path) :
    c.delete remote name w =
      ((remote.call (.delete path) w.remote).1.mapError .transport,
        { remote := (remote.call (.delete path) w.remote).2
          memory := match (remote.call (.delete path) w.remote).1 with
            | .ok () => c.forget name w.memory
            | .error _ => w.memory }) := by
  unfold delete
  rw [Client.bind_run]
  simp only [Client.consult_run, h]
  rw [Client.bind_run, Client.ask_run]
  cases (remote.call (.delete path) w.remote).1 <;> rfl

/-- A member that was created is used at once. -/
theorem create_run {w : World σ} {path : String} (hcheck : Path.checkObjectName name = .ok ())
    (hpath : c.path w.memory = .ok path) :
    c.create remote name w =
      (((remote.call (.create path name) w.remote).1.mapError .transport).map fun _ =>
          c.memberFor name w.memory,
        { remote := (remote.call (.create path name) w.remote).2
          memory := match (remote.call (.create path name) w.remote).1 with
            | .ok () => c.enter name w.memory
            | .error _ => w.memory }) := by
  rw [create, hcheck]
  dsimp only
  rw [Client.consult_bind_ok hpath, Client.bind_run, Client.ask_run]
  cases (remote.call (.create path name) w.remote).1 with
  | error fault => rfl
  | ok done =>
    dsimp only [Except.mapError]
    rw [cached_run]
    rfl

end Collection

end SettingsTree
