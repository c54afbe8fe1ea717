import SettingsTree.Proofs.Session.Turn

/-! # The members of a collection over a run

A run uses one collection again and again, while the remote answers as it likes and everything else
may change. What its index holds is told by what was said: a member is in it only if the remote told
of it last, and its identity lasts until the remote omits it from an enumeration or deletes it.
-/

namespace SettingsTree

def Container.collection? : Container → Option Collection
  | .member owner position d _ _ => some ⟨owner, position, d⟩
  | _ => none

namespace Collection

variable {σ : Type} {remote : Remote σ} {c : Collection} {name : String}

/-- The remote said that the member of a name is gone. -/
def Drops (c : Collection) (name : String) (e : Exchange) : Prop :=
  c.Omits name e ∨ c.Deletes name e

theorem Drops.enumerates_or_deletes {e : Exchange} (h : c.Drops name e) :
    c.Enumerates e ∨ c.Deletes name e := by
  rcases h with ⟨names, he, -⟩ | h
  · exact Or.inl ⟨names, he⟩
  · exact Or.inr h

/-! ### What exchanges do to an index -/

/-- What may become of the index of a collection while something is said. -/
structure Evolves (c : Collection) (memory : Memory) (said : List Exchange) (later : Memory) :
    Prop where
  fresh_le : memory.fresh ≤ later.fresh
  /-- What is in the index was in it, or is a new object. -/
  old_or_new : ∀ name member, (name, member) ∈ c.known later → (name, member) ∈ c.known memory ∨
    ∃ serial, memory.fresh ≤ serial ∧ serial < later.fresh ∧ member = c.member name serial
  /-- A member that was not dropped is still the member of its name. -/
  kept : ∀ name member, Keyed.get? name (c.known memory) = some member →
    (∀ e ∈ said, ¬ c.Drops name e) → Keyed.get? name (c.known later) = some member
  /-- If a member was dropped, the member of its name is a new object. -/
  renewed : ∀ name member, (∃ e ∈ said, c.Drops name e) → (name, member) ∈ c.known later →
    ∃ serial, memory.fresh ≤ serial ∧ member = c.member name serial

namespace Evolves

variable {memory middle later : Memory} {said more : List Exchange}

/-- Nothing happens to the index while nothing is said that matters to it. -/
theorem of_known_eq (hknown : c.known later = c.known memory) (hfresh : memory.fresh ≤ later.fresh)
    (h : ∀ name, ∀ e ∈ said, ¬ c.Drops name e) : c.Evolves memory said later where
  fresh_le := hfresh
  old_or_new _ _ hmem := Or.inl (hknown ▸ hmem)
  kept _ _ hget _ := hknown ▸ hget
  renewed name _ hdrop _ := by
    obtain ⟨e, he, hdrop⟩ := hdrop
    exact absurd hdrop (h name e he)

theorem trans (h : c.Evolves memory said middle) (h' : c.Evolves middle more later) :
    c.Evolves memory (said ++ more) later where
  fresh_le := Nat.le_trans h.fresh_le h'.fresh_le
  old_or_new name member hmem := by
    rcases h'.old_or_new name member hmem with hmem | ⟨serial, hge, hlt, rfl⟩
    · rcases h.old_or_new name member hmem with hmem | ⟨serial, hge, hlt, rfl⟩
      · exact Or.inl hmem
      · exact Or.inr ⟨serial, hge, Nat.lt_of_lt_of_le hlt h'.fresh_le, rfl⟩
    · exact Or.inr ⟨serial, Nat.le_trans h.fresh_le hge, hlt, rfl⟩
  kept name member hget hsaid :=
    h'.kept name member
      (h.kept name member hget fun e he => hsaid e (List.mem_append_left _ he))
      fun e he => hsaid e (List.mem_append_right _ he)
  renewed name member hdrop hmem := by
    have hnew : (∃ serial, middle.fresh ≤ serial ∧ member = c.member name serial) →
        ∃ serial, memory.fresh ≤ serial ∧ member = c.member name serial := by
      rintro ⟨serial, hge, rfl⟩
      exact ⟨serial, Nat.le_trans h.fresh_le hge, rfl⟩
    obtain ⟨e, he, hdrop⟩ := hdrop
    rcases List.mem_append.1 he with he | he
    · rcases h'.old_or_new name member hmem with hmem | ⟨serial, hge, -, rfl⟩
      · exact h.renewed name member ⟨e, he, hdrop⟩ hmem
      · exact hnew ⟨serial, hge, rfl⟩
    · exact hnew (h'.renewed name member ⟨e, he, hdrop⟩ hmem)

theorem retain (c : Collection) (names : List String) (memory : Memory) :
    c.Evolves memory [⟨.memberNames c.place, .ok names⟩] (c.retain names memory) where
  fresh_le := (changedAt_retain c names memory).fresh
  old_or_new _ _ hmem := by
    rw [known_retain] at hmem
    exact Or.inl (List.mem_of_mem_filter hmem)
  kept name member hget hsaid := by
    have hmem : name ∈ names := by
      by_contra hmem
      exact hsaid _ List.mem_cons_self (Or.inl ⟨names, rfl, hmem⟩)
    rw [get?_known_retain, if_pos hmem, hget]
  renewed name member hdrop hmem := by
    obtain ⟨e, he, hdrop⟩ := hdrop
    rw [List.mem_singleton] at he
    subst he
    rw [known_retain, List.mem_filter] at hmem
    rcases hdrop with ⟨listed, heq, hnot⟩ | hdrop
    · simp only [Exchange.mk.injEq, heq_eq_eq, Except.ok.injEq, true_and] at heq
      exact absurd (List.contains_iff_mem.1 hmem.2) (heq ▸ hnot)
    · cases hdrop

theorem forget (c : Collection) (name : String) (memory : Memory) :
    c.Evolves memory [⟨.delete (c.memberPlace name), .ok ()⟩] (c.forget name memory) where
  fresh_le := (changedAt_forget c name memory).fresh
  old_or_new _ _ hmem := by
    rw [known_forget, Keyed.erase] at hmem
    exact Or.inl (List.mem_of_mem_filter hmem)
  kept other member hget hsaid := by
    have hne : other ≠ name := by
      rintro rfl
      exact hsaid _ List.mem_cons_self (Or.inr rfl)
    rw [get?_known_forget, if_neg hne, hget]
  renewed other member hdrop hmem := by
    obtain ⟨e, he, hdrop⟩ := hdrop
    rw [List.mem_singleton] at he
    subst he
    rcases hdrop with ⟨names, heq, -⟩ | hdrop
    · cases heq
    · obtain rfl := Deletes.eq (c := c) rfl hdrop
      rw [known_forget, Keyed.erase, List.mem_filter] at hmem
      simp at hmem

theorem enter (c : Collection) (name : String) (memory : Memory) :
    c.Evolves memory [] (c.enter name memory) where
  fresh_le := (changedAt_enter c name memory).fresh
  old_or_new other member hmem := by
    rcases mem_known_enter hmem with hmem | ⟨heq, hlt⟩
    · exact Or.inl hmem
    · obtain ⟨rfl, rfl⟩ := Prod.mk.inj heq
      exact Or.inr ⟨memory.fresh, Nat.le_refl _, hlt, rfl⟩
  kept other member hget _ := by
    rw [get?_known_enter]
    split
    · next heq => rw [memberFor_of_known (heq ▸ hget)]
    · exact hget
  renewed _ _ hdrop _ := by simp at hdrop

end Evolves

theorem Trace.evolves {w v : World σ} {said : List Exchange} (trace : Trace remote c w said v) :
    c.Evolves w.memory said v.memory := by
  induction trace with
  | start => exact .of_known_eq rfl (Nat.le_refl _) (by simp)
  | exchange call _ henumerates hdeletes ih =>
    refine ih.trans (.of_known_eq rfl (Nat.le_refl _) fun name e he hdrop => ?_)
    rw [List.mem_singleton] at he
    subst he
    exact hdrop.enumerates_or_deletes.elim henumerates (hdeletes name)
  | enumerate _ _ ih => exact ih.trans (.retain c _ _)
  | delete _ _ ih => exact ih.trans (.forget c _ _)
  | @enter said v name _ _ ih =>
    have hafter := ih.trans (.enter c name v.memory)
    rwa [List.append_nil] at hafter

/-- What is in the index stays attested, also by what was said before. -/
theorem Trace.attested {w v : World σ} {said : List Exchange} (trace : Trace remote c w said v)
    {before : List Exchange} (h : ∀ name ∈ Keyed.names (c.known w.memory), c.Attested before name) :
    ∀ name ∈ Keyed.names (c.known v.memory), c.Attested (before ++ said) name := by
  induction trace with
  | start => simpa using h
  | exchange call _ henumerates hdeletes ih =>
    intro name hname
    rw [← List.append_assoc]
    exact (ih name hname).snoc henumerates (hdeletes name)
  | @enumerate said v names _ _ _ =>
    intro name hname
    rw [known_retain, Keyed.names, List.mem_map] at hname
    obtain ⟨entry, hentry, rfl⟩ := hname
    rw [← List.append_assoc]
    exact Lists.attested ⟨names, rfl, List.contains_iff_mem.1 (List.mem_filter.1 hentry).2⟩ _
  | @delete said v other _ _ ih =>
    intro name hname
    rw [known_forget, Keyed.names, List.mem_map] at hname
    obtain ⟨entry, hentry, rfl⟩ := hname
    rw [Keyed.erase, List.mem_filter, decide_eq_true_eq] at hentry
    have hdeletes : c.Deletes other ⟨.delete (c.memberPlace other), .ok ()⟩ := rfl
    rw [← List.append_assoc]
    refine (ih entry.1 (List.mem_map_of_mem hentry.1)).snoc hdeletes.not_enumerates fun h => ?_
    exact hentry.2 (hdeletes.eq h).symm
  | enter _ hattested ih =>
    intro name hname
    obtain ⟨entry, hentry, rfl⟩ := List.mem_map.1 hname
    rcases mem_known_enter hentry with hentry | ⟨rfl, -⟩
    · exact ih entry.1 (List.mem_map_of_mem hentry)
    · exact hattested.prepend before

/-! ### Runs -/

/-- A run that uses a collection: its turns, from one world to another. -/
inductive Run (remote : Remote σ) (c : Collection) (w : World σ) : List Turn → World σ → Prop
  | start : Run remote c w [] w
  /-- Something else happens. The remote and everything that is remembered may change, but for the
  index of the collection; numbers are given out only once. -/
  | elsewhere {turns : List Turn} {v u : World σ} (run : Run remote c w turns v)
      (index : u.memory.index c.address = v.memory.index c.address)
      (fresh : v.memory.fresh ≤ u.memory.fresh) : Run remote c w turns u
  | turn {turns : List Turn} {v : World σ} {operation : Operation}
      {act : Client (List Exchange × σ) (Reply Node)} {result : Except ClientError (Reply Node)}
      {said : List Exchange} {s : σ} {memory : Memory} (run : Run remote c w turns v)
      (performed : (Node.collection c).perform remote.traced operation = some act)
      (ended : act ⟨([], v.remote), v.memory⟩ = (result, ⟨(said, s), memory⟩)) :
      Run remote c w (turns ++ [⟨v.memory, operation, said, result⟩]) ⟨s, memory⟩

def said (turns : List Turn) : List Exchange := turns.flatMap Turn.exchanges

@[simp] theorem said_append (front back : List Turn) :
    said (front ++ back) = said front ++ said back := by rw [said, List.flatMap_append]; rfl

@[simp] theorem said_singleton (turn : Turn) : said [turn] = turn.exchanges := by simp [said]

/-- A turn is a trace of the collection, and what it gave is in the index at its end. -/
theorem turn_traced {v : World σ} {operation : Operation}
    {act : Client (List Exchange × σ) (Reply Node)} {result : Except ClientError (Reply Node)}
    {exchanges : List Exchange} {s : σ} {memory : Memory}
    (performed : (Node.collection c).perform remote.traced operation = some act)
    (ended : act ⟨([], v.remote), v.memory⟩ = (result, ⟨(exchanges, s), memory⟩)) :
    Trace remote.traced c ⟨([], v.remote), v.memory⟩ exchanges ⟨(exchanges, s), memory⟩ ∧
      ∀ name member, Turn.Gave ⟨v.memory, operation, exchanges, result⟩ name member →
        Keyed.get? name (c.known memory) = some member := by
  obtain ⟨said, trace, hbacks⟩ :=
    perform_traced performed _ [] _ (.start (w := ⟨([], v.remote), v.memory⟩)) trivial
  rw [ended] at trace hbacks
  have hkept : exchanges = said := by simpa using trace.kept
  refine ⟨hkept ▸ trace, ?_⟩
  rintro name member ⟨reply, rfl, hop⟩
  exact (hbacks reply rfl).gave name member hop

namespace Run

variable {w v : World σ} {turns : List Turn}

theorem evolves (run : Run remote c w turns v) : c.Evolves w.memory (said turns) v.memory := by
  induction run with
  | start => exact .of_known_eq rfl (Nat.le_refl _) (by simp [said])
  | @elsewhere _ v u _ index fresh ih =>
    have hquiet : c.Evolves v.memory [] u.memory :=
      .of_known_eq (congrArg Index.members index) fresh (by simp)
    have hafter := ih.trans hquiet
    rwa [List.append_nil] at hafter
  | turn _ performed ended ih =>
    rw [said_append, said_singleton]
    exact ih.trans (turn_traced performed ended).1.evolves

theorem attested (run : Run remote c w turns v) (h : c.known w.memory = []) :
    ∀ name ∈ Keyed.names (c.known v.memory), c.Attested (said turns) name := by
  induction run with
  | start => simp [h]
  | elsewhere _ index _ ih => simpa only [known, index] using ih
  | turn _ performed ended ih =>
    rw [said_append, said_singleton]
    exact (turn_traced performed ended).1.attested ih

theorem split {front back : List Turn} (run : Run remote c w (front ++ back) v) :
    ∃ u, Run remote c w front u ∧ Run remote c u back v := by
  generalize hturns : front ++ back = turns at run
  induction run generalizing back with
  | start =>
    obtain ⟨rfl, rfl⟩ := List.append_eq_nil_iff.1 hturns
    exact ⟨w, .start, .start⟩
  | elsewhere _ index fresh ih =>
    obtain ⟨u, hfront, hback⟩ := ih hturns
    exact ⟨u, hfront, hback.elsewhere index fresh⟩
  | turn run performed ended ih =>
    rcases List.eq_nil_or_concat back with rfl | ⟨rest, last, rfl⟩
    · rw [List.append_nil] at hturns
      exact ⟨_, hturns ▸ run.turn performed ended, .start⟩
    · rw [List.concat_eq_append, ← List.append_assoc] at hturns
      obtain ⟨hrest, hlast⟩ := List.append_inj' hturns rfl
      obtain ⟨u, hfront, hback⟩ := ih hrest
      rw [List.concat_eq_append, hlast]
      exact ⟨u, hfront, hback.turn performed ended⟩

/-- What the last turn gave is in the index at its end. -/
theorem gave {turn : Turn} (run : Run remote c w (turns ++ [turn]) v) {member : Container}
    (h : turn.Gave name member) : Keyed.get? name (c.known v.memory) = some member := by
  generalize hturns : turns ++ [turn] = all at run
  induction run with
  | start => simp at hturns
  | elsewhere _ index _ ih => simpa only [known, index] using ih hturns
  | turn _ performed ended _ =>
    obtain ⟨-, hlast⟩ := List.append_inj' hturns rfl
    obtain rfl := List.singleton_inj.1 hlast
    exact (turn_traced performed ended).2 name member h

theorem numbered (run : Run remote c w turns v) (h : c.known w.memory = []) {member : Container}
    (hmem : (name, member) ∈ c.known v.memory) :
    ∃ serial, serial < v.memory.fresh ∧ member = c.member name serial := by
  rcases run.evolves.old_or_new name member hmem with hmem | ⟨serial, -, hlt, rfl⟩
  · exact absurd (h ▸ hmem) List.not_mem_nil
  · exact ⟨serial, hlt, rfl⟩

theorem goes {template : Descriptor} (run : Run remote c w turns v)
    (hc : c.descriptor.template?.getD c.descriptor = template) (h : c.known w.memory = []) :
    ∀ turn ∈ turns, turn.Goes c template := by
  induction run with
  | start => simp
  | elsewhere _ _ _ ih => exact ih
  | @turn turns v operation act result said s memory run performed ended ih =>
    have hown : c.KnowsOwn v.memory := by
      intro name member hmem
      obtain ⟨serial, -, heq⟩ := run.numbered h hmem
      exact ⟨serial, heq⟩
    obtain ⟨said', hsaid, hgoes⟩ :=
      perform_going (w := ⟨([], v.remote), v.memory⟩) performed hc hown
    rw [ended] at hsaid hgoes
    obtain rfl : said = said' := by simpa [World.Said] using hsaid
    intro turn hturn
    rcases List.mem_append.1 hturn with hturn | hturn
    · exact ih turn hturn
    · exact List.mem_singleton.1 hturn ▸ hgoes

/-- What a turn gave and what the last turn gives is the same object exactly when the remote did not
say in between that the member is gone. -/
theorem same_iff {turns more : List Turn} {first last : Turn} {u v : World σ}
    (run : Run remote c w (turns ++ [first]) u) (further : Run remote c u (more ++ [last]) v)
    (h : c.known w.memory = []) {member later : Container} (hfirst : first.Gave name member)
    (hlast : last.Gave name later) :
    member.address = later.address ↔ ∀ e ∈ said (more ++ [last]), ¬ c.Drops name e := by
  have hmember := run.gave hfirst
  have hlater := further.gave hlast
  constructor
  · intro heq e he hdrop
    obtain ⟨serial, hlt, rfl⟩ := run.numbered h (Keyed.mem_of_get? hmember)
    obtain ⟨renewed, hge, rfl⟩ :=
      further.evolves.renewed name later ⟨e, he, hdrop⟩ (Keyed.mem_of_get? hlater)
    simp only [Collection.member, Container.address, List.cons.injEq, Hop.member.injEq,
      and_true] at heq
    omega
  · intro hkept
    have hsame := further.evolves.kept name member hmember hkept
    rw [hlater, Option.some.injEq] at hsame
    rw [hsame]

end Run

/-! ### What a run says about the members -/

theorem Lists.not_drops {e : Exchange} (h : c.Lists name e) : ¬ c.Drops name e := by
  obtain ⟨names, rfl, hname⟩ := h
  rintro (⟨other, heq, hnot⟩ | hdeletes)
  · obtain rfl : names = other := by simpa using heq
    exact hnot hname
  · cases hdeletes

theorem Creates.not_drops {e : Exchange} (h : c.Creates name e) : ¬ c.Drops name e := by
  subst h
  rintro (⟨names, heq, -⟩ | hdeletes)
  · cases heq
  · cases hdeletes

/-- Whether a member was dropped in a turn shows in what was done and what came of it. -/
theorem Goes.drops_iff {template : Descriptor} {turn : Turn} (h : turn.Goes c template) :
    (∃ e ∈ turn.exchanges, c.Drops name e) ↔ turn.Omits c name ∨ turn.Deletes name := by
  rw [Turn.Deletes, ← h.deletes_iff]
  simp only [Drops, and_or_left, exists_or]
  rfl

theorem not_drops_iff {template : Descriptor} {turns : List Turn}
    (h : ∀ turn ∈ turns, turn.Goes c template) :
    (∀ e ∈ said turns, ¬ c.Drops name e) ↔
      ∀ turn ∈ turns, ¬ turn.Omits c name ∧ ¬ turn.Deletes name := by
  constructor
  · intro hsaid turn hturn
    rw [← not_or, ← (h turn hturn).drops_iff]
    rintro ⟨e, he, hdrops⟩
    exact hsaid e (List.mem_flatMap.2 ⟨turn, hturn, he⟩) hdrops
  · intro hturns e he hdrops
    obtain ⟨turn, hturn, he⟩ := List.mem_flatMap.1 he
    exact not_or.2 (hturns turn hturn) ((h turn hturn).drops_iff.1 ⟨e, he, hdrops⟩)

theorem Goes.not_drops_of_gave {template : Descriptor} {turn : Turn} {member : Container}
    (h : turn.Goes c template) (hgave : turn.Gave name member) :
    ∀ e ∈ turn.exchanges, ¬ c.Drops name e := by
  obtain ⟨reply, hresult, hop⟩ := hgave
  rw [Turn.Goes, hresult] at h
  obtain ⟨e, hone, htold⟩ := h.told_of_gave hop
  intro e' he'
  rw [hone, List.mem_singleton] at he'
  exact he' ▸ htold.elim Lists.not_drops Creates.not_drops

/-- What the remote told of a member it told in a turn, and it said nothing else of the member in a
later one. -/
theorem Attested.exists_turn {turns : List Turn} (h : c.Attested (said turns) name) :
    ∃ before turn after, turns = before ++ turn :: after ∧ c.Attested turn.exchanges name ∧
      ∀ later ∈ after, ∀ e ∈ later.exchanges, ¬ c.Enumerates e ∧ ¬ c.Deletes name e := by
  obtain ⟨front, told, back, heq, htold, hback⟩ := h
  induction turns generalizing front with
  | nil => simp [said] at heq
  | cons turn rest ih =>
    rw [said, List.flatMap_cons, ← said, List.append_eq_append_iff] at heq
    rcases heq with ⟨middle, rfl, hrest⟩ | ⟨middle, hturn, hafter⟩
    · obtain ⟨before, last, after, rfl, hlast⟩ := ih middle hrest
      exact ⟨turn :: before, last, after, rfl, hlast⟩
    cases middle with
    | nil =>
      obtain ⟨before, last, after, rfl, hlast⟩ := ih [] hafter.symm
      exact ⟨turn :: before, last, after, rfl, hlast⟩
    | cons first middle =>
      obtain ⟨rfl, rfl⟩ := List.cons.inj hafter
      refine ⟨[], turn, rest, rfl, ⟨front, told, middle, hturn, htold, fun e he => ?_⟩,
        fun last hlast e he => ?_⟩
      · exact hback e (List.mem_append_left _ he)
      · exact hback e (List.mem_append_right _ (List.mem_flatMap.2 ⟨last, hlast, he⟩))

/-- How the members of a collection follow from what was done with it in a run. -/
structure Follows (c : Collection) (template : Descriptor) (turns : List Turn) (memory : Memory) :
    Prop where
  /-- Under each name in the index is a member of this name and of this collection. -/
  belongs : ∀ name member, (name, member) ∈ c.known memory → member.memberName? = some name ∧
    member.descriptor = template ∧ member.collection? = some c
  /-- Each turn says what its operation is there for, and gives what the remote answered. -/
  goes : ∀ turn ∈ turns, turn.Goes c template
  /-- Each name in the index was listed by the last enumeration or created after it, and was not
  deleted since. -/
  attested : ∀ name ∈ Keyed.names (c.known memory), ∃ before turn after,
    turns = before ++ turn :: after ∧ c.Attested turn.exchanges name ∧
      ∀ later ∈ after, ¬ later.Enumerates c ∧ ¬ later.Deletes name
  /-- In one turn, a name has one object. -/
  same : ∀ turn ∈ turns, ∀ name member other, turn.Gave name member → turn.Gave name other →
    member.address = other.address
  /-- In two turns, a name has one object unless it was omitted or deleted in between. -/
  same_iff : ∀ before first between second after,
    turns = before ++ first :: between ++ second :: after →
    ∀ name member other, first.Gave name member → second.Gave name other →
      (member.address = other.address ↔
        ∀ turn ∈ between, ¬ turn.Omits c name ∧ ¬ turn.Deletes name)

/-- Over every run that starts with an empty index, whatever the remote answers, the index holds
members of the collection that the remote told of last, and accesses to one name give the same
object exactly when in between no enumeration omitted the name and no deletion of it succeeded. -/
theorem follows_of_run {label : Label} {template : Descriptor}
    (hc : c.descriptor = .collection label template) {w v : World σ} {turns : List Turn}
    (hstart : w.memory.index c.address = {}) (run : Run remote c w turns v) :
    c.Follows template turns v.memory := by
  have hknown : c.known w.memory = [] := by rw [known, hstart]
  have htemplate : c.descriptor.template?.getD c.descriptor = template := by rw [hc]; rfl
  have hgoes := run.goes htemplate hknown
  refine ⟨fun name member hmem => ?_, hgoes, fun name hname => ?_,
    fun turn hturn name member other => ?_, fun before first between second after hturns name member
      other => ?_⟩
  · obtain ⟨serial, -, rfl⟩ := run.numbered hknown hmem
    exact ⟨rfl, by simp [Collection.member, Container.descriptor, hc, Descriptor.template?], rfl⟩
  · obtain ⟨before, turn, after, rfl, hattested, hafter⟩ :=
      (run.attested hknown name hname).exists_turn
    refine ⟨before, turn, after, rfl, hattested, fun later hlater => ⟨?_, ?_⟩⟩
    · rintro ⟨e, he, henumerates⟩
      exact (hafter later hlater e he).1 henumerates
    · have hturn : later ∈ before ++ turn :: after := by simp [hlater]
      rw [Turn.Deletes, ← (hgoes later hturn).deletes_iff]
      rintro ⟨e, he, hdeletes⟩
      exact (hafter later hlater e he).2 hdeletes
  · intro hmember hother
    obtain ⟨before, after, rfl⟩ := List.append_of_mem hturn
    rw [← List.singleton_append, ← List.append_assoc] at run
    obtain ⟨u, hbefore, -⟩ := run.split
    have hsame := (hbefore.gave hmember).symm.trans (hbefore.gave hother)
    rw [Option.some.inj hsame]
  · intro hfirst hsecond
    have hblocks : turns = before ++ [first] ++ (between ++ [second] ++ after) := by
      rw [hturns]
      simp
    rw [hblocks] at run
    obtain ⟨u, hbefore, hrest⟩ := run.split
    obtain ⟨u', hbetween, -⟩ := hrest.split
    have hmem : second ∈ turns := by simp [hturns]
    have hsecond' := (hgoes second hmem).not_drops_of_gave hsecond
    have hmiddle : ∀ turn ∈ between, turn.Goes c template :=
      fun turn hturn => hgoes turn (by simp [hturns, hturn])
    rw [hbefore.same_iff hbetween hknown hfirst hsecond, ← not_drops_iff hmiddle, said_append,
      said_singleton, List.forall_mem_append, and_iff_left hsecond']

end Collection

/-! ### A run in which a member is gone for a while -/

namespace Scripted

def label : Label := ⟨"Items", "items", 0⟩

def template : Descriptor := .container label [] [] []

def items : Collection :=
  ⟨.root 0 (.container ⟨"Root", "root", 0⟩ [] [.collection label template] []), 0,
    .collection label template⟩

def memory : Memory := { objects := [("root", .container items.owner)], fresh := 1 }

def got : Memory := items.enter "a" (items.retain ["a"] memory)

def created : Memory := items.enter "a" (items.forget "a" got)

def listed : Memory := items.enterAll ["a", "a"] (items.retain ["a", "a"] created)

/-- A member is got and deleted. Then it is created and listed twice, and after an enumeration
without it, it is created again. -/
def turns : List Turn := [
  ⟨memory, .get "a", [⟨.memberNames items.place, .ok ["a"]⟩],
    .ok (.object (.container (items.member "a" 1)))⟩,
  ⟨got, .delete "a", [⟨.delete (items.memberPlace "a"), .ok ()⟩], .ok .done⟩,
  ⟨items.forget "a" got, .create "a", [⟨.create items.place "a", .ok ()⟩],
    .ok (.object (.container (items.member "a" 2)))⟩,
  ⟨created, .entries, [⟨.memberNames items.place, .ok ["a", "a"]⟩],
    .ok (.entries [("a", .container (items.member "a" 2)),
      ("a", .container (items.member "a" 2))])⟩,
  ⟨listed, .names, [⟨.memberNames items.place, .ok []⟩], .ok (.names [])⟩,
  ⟨items.retain [] listed, .create "a", [⟨.create items.place "a", .ok ()⟩],
    .ok (.object (.container (items.member "a" 3)))⟩]

theorem run : Collection.Run .scripted items ⟨[["a"], ["a", "a"], []], memory⟩ turns
    ⟨[], items.enter "a" (items.retain [] listed)⟩ := by
  have first : Collection.Run .scripted items ⟨[["a"], ["a", "a"], []], memory⟩ (turns.take 1)
      ⟨[["a", "a"], []], got⟩ := .turn .start rfl rfl
  have second : Collection.Run .scripted items ⟨[["a"], ["a", "a"], []], memory⟩ (turns.take 2)
      ⟨[["a", "a"], []], items.forget "a" got⟩ := first.turn rfl rfl
  have third : Collection.Run .scripted items ⟨[["a"], ["a", "a"], []], memory⟩ (turns.take 3)
      ⟨[["a", "a"], []], created⟩ := second.turn rfl rfl
  have fourth : Collection.Run .scripted items ⟨[["a"], ["a", "a"], []], memory⟩ (turns.take 4)
      ⟨[[]], listed⟩ := third.turn rfl rfl
  have fifth : Collection.Run .scripted items ⟨[["a"], ["a", "a"], []], memory⟩ (turns.take 5)
      ⟨[], items.retain [] listed⟩ := fourth.turn rfl rfl
  exact fifth.turn rfl rfl

end Scripted

/-- What is created after a deletion, or after an enumeration without it, is another object; what is
listed after it was created is the one that was created. -/
theorem Collection.follows_of_run_scripted :
    Scripted.memory.index Scripted.items.address = {} ∧
      Scripted.items.Follows Scripted.template Scripted.turns
        (Scripted.items.enter "a" (Scripted.items.retain [] Scripted.listed)) ∧
      (Scripted.items.member "a" 1).address ≠ (Scripted.items.member "a" 2).address ∧
      (Scripted.items.member "a" 2).address ≠ (Scripted.items.member "a" 3).address := by
  have h := Collection.follows_of_run (c := Scripted.items) rfl rfl Scripted.run
  refine ⟨rfl, h, fun heq => ?_, fun heq => ?_⟩
  · have hkept := (h.same_iff [] _ [Scripted.turns[1]] _ _ rfl "a" _ _
      ⟨_, rfl, Or.inl ⟨Or.inl rfl, rfl⟩⟩ ⟨_, rfl, Or.inl ⟨Or.inr rfl, rfl⟩⟩).1 heq
    exact (hkept _ List.mem_cons_self).2 ⟨rfl, rfl⟩
  · have hkept := (h.same_iff (Scripted.turns.take 3) _ [Scripted.turns[4]] _ _ rfl "a" _ _
      ⟨_, rfl, Or.inr ⟨rfl, _, rfl, List.mem_cons_self⟩⟩ ⟨_, rfl, Or.inl ⟨Or.inr rfl, rfl⟩⟩).1 heq
    exact (hkept _ List.mem_cons_self).1 ⟨_, List.mem_cons_self, [], rfl, by simp⟩

end SettingsTree
