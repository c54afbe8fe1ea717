import SettingsTree.Proofs.Session.Linked
import SettingsTree.Proofs.Session.Reachable

/-! # What writing the state of a collection says

The members of a state are written one after the other, until one of them cannot be. For each one,
the members are enumerated; a member that is not listed is created, if its name can be part of a
path; and then its state is written. What is said of one member is said of it alone, so that members
that are not mentioned are left alone.
-/

namespace SettingsTree

open Client

theorem Json.eq_obj_of_members? {value : Json} {members : Keyed Json}
    (h : value.members? = some members) : value = .obj members := by
  cases value with
  | obj members' => rw [Option.some.inj h]
  | _ => cases h

namespace Collection

/-! ### What is said -/

/-- What is said when the state of a member is written to a collection at a path, and what comes of
it. -/
inductive WritesItem (path : String) (template : Descriptor) (name : String) (state : Json) :
    List Exchange → Except ClientError Unit → Prop
  | unanswered (fault : TransportError) : WritesItem path template name state
      [⟨.memberNames path, .error fault⟩] (.error (.transport fault))
  | listed {names : List String} (h : name ∈ names) (answer : Except TransportError Unit) :
      WritesItem path template name state
        [⟨.memberNames path, .ok names⟩,
          ⟨.setState (path ++ ":" ++ name) (Projection.toRemote template state), answer⟩]
        (answer.mapError .transport)
  | refused {names : List String} (h : name ∉ names) {fault : PathError}
      (hcheck : Path.checkObjectName name = .error fault) :
      WritesItem path template name state [⟨.memberNames path, .ok names⟩] (.error (.path fault))
  | uncreated {names : List String} (h : name ∉ names) (hcheck : Path.checkObjectName name = .ok ())
      (fault : TransportError) :
      WritesItem path template name state
        [⟨.memberNames path, .ok names⟩, ⟨.create path name, .error fault⟩]
        (.error (.transport fault))
  | created {names : List String} (h : name ∉ names) (hcheck : Path.checkObjectName name = .ok ())
      (answer : Except TransportError Unit) :
      WritesItem path template name state
        [⟨.memberNames path, .ok names⟩, ⟨.create path name, .ok ()⟩,
          ⟨.setState (path ++ ":" ++ name) (Projection.toRemote template state), answer⟩]
        (answer.mapError .transport)

/-- What is said when the states of several members are written, and what comes of it: each member
is written in its turn, until one cannot be. -/
inductive Writes (path : String) (template : Descriptor) :
    Keyed Json → List Exchange → Except ClientError Unit → Prop
  | done : Writes path template [] [] (.ok ())
  | next {name : String} {state : Json} {members : Keyed Json} {said more : List Exchange}
      {result : Except ClientError Unit}
      (first : WritesItem path template name state said (.ok ()))
      (rest : Writes path template members more result) :
      Writes path template ((name, state) :: members) (said ++ more) result
  | failed {name : String} {state : Json} {said : List Exchange} {fault : ClientError}
      (first : WritesItem path template name state said (.error fault)) (members : Keyed Json) :
      Writes path template ((name, state) :: members) said (.error fault)

def written? (e : Exchange) : Option (String × Json) :=
  match e.call with
  | .setState path state => some (path, state)
  | _ => none

def writing (path : String) (template : Descriptor) (entry : String × Json) : String × Json :=
  (path ++ ":" ++ entry.1, Projection.toRemote template entry.2)

/-- An exchange is about a collection as a whole, or about a member that is mentioned. -/
def Addresses (path : String) (template : Descriptor) (members : Keyed Json) (e : Exchange) :
    Prop :=
  e.call = .memberNames path ∨ ∃ entry ∈ members,
    e.call = .create path entry.1 ∨ written? e = some (writing path template entry)

section

variable {path : String} {template : Descriptor} {name : String} {state : Json}
  {members : Keyed Json} {said : List Exchange} {result : Except ClientError Unit}

theorem WritesItem.addresses (h : WritesItem path template name state said result) :
    ∀ e ∈ said, Addresses path template [(name, state)] e := by
  cases h <;> simp [Addresses, written?, writing]

theorem Addresses.mono {more : Keyed Json} {e : Exchange}
    (h : Addresses path template members e) (hle : members ⊆ more) :
    Addresses path template more e := by
  rcases h with h | ⟨entry, hentry, h⟩
  · exact Or.inl h
  · exact Or.inr ⟨entry, hle hentry, h⟩

theorem Writes.addresses (h : Writes path template members said result) :
    ∀ e ∈ said, Addresses path template members e := by
  induction h with
  | done => simp
  | next first _ ih =>
    intro e he
    rcases List.mem_append.1 he with he | he
    · exact (first.addresses e he).mono (by simp)
    · exact (ih e he).mono (List.subset_cons_self _ _)
  | failed first => exact fun e he => (first.addresses e he).mono (by simp)

/-- A member is created only if the enumeration just before did not list it. -/
def CreatesOmitted (path : String) (said : List Exchange) : Prop :=
  ∀ before e after name, said = before ++ e :: after → e.call = .create path name →
    ∃ front names, before = front ++ [⟨.memberNames path, .ok names⟩] ∧ name ∉ names

theorem CreatesOmitted.append {more : List Exchange} (h : CreatesOmitted path said)
    (h' : CreatesOmitted path more) : CreatesOmitted path (said ++ more) := by
  intro before e after name heq hcall
  rcases List.append_eq_append_iff.1 heq with ⟨middle, rfl, hmore⟩ | ⟨middle, hsaid, hafter⟩
  · obtain ⟨front, names, rfl, hname⟩ := h' middle e after name hmore hcall
    exact ⟨said ++ front, names, (List.append_assoc ..).symm, hname⟩
  · cases middle with
    | nil =>
      obtain ⟨front, names, hnil, -⟩ := h' [] e after name hafter.symm hcall
      simp at hnil
    | cons first middle =>
      obtain ⟨rfl, -⟩ := List.cons.inj hafter
      exact h before e middle name hsaid hcall

theorem CreatesOmitted.of_silent (h : ∀ e ∈ said, ∀ name, e.call ≠ .create path name) :
    CreatesOmitted path said := by
  rintro before e after name rfl hcall
  exact absurd hcall (h e (by simp) name)

theorem CreatesOmitted.pair {names : List String} (h : name ∉ names)
    (answer : Except TransportError Unit) :
    CreatesOmitted path [⟨.memberNames path, .ok names⟩, ⟨.create path name, answer⟩] := by
  intro before e after other heq hcall
  rcases before with _ | ⟨asked, _ | ⟨made, front⟩⟩
  · obtain ⟨rfl, -⟩ := List.cons.inj heq
    cases hcall
  · simp only [List.cons_append, List.nil_append, List.cons.injEq] at heq
    obtain ⟨rfl, rfl, -⟩ := heq
    cases hcall
    exact ⟨[], names, rfl, h⟩
  · simp at heq

theorem WritesItem.createsOmitted (h : WritesItem path template name state said result) :
    CreatesOmitted path said := by
  cases h with
  | uncreated h _ fault => exact .pair h (.error fault)
  | created h _ answer => exact (CreatesOmitted.pair h (.ok ())).append (.of_silent (by simp))
  | unanswered | listed | refused => exact .of_silent (by simp)

theorem Writes.createsOmitted (h : Writes path template members said result) :
    CreatesOmitted path said := by
  induction h with
  | done => intro before e after name heq; simp at heq
  | next first _ ih => exact first.createsOmitted.append ih
  | failed first => exact first.createsOmitted

/-- The state of the member is the last thing that is written, and it is written unless something
fails before. -/
theorem WritesItem.written (h : WritesItem path template name state said result) :
    said.filterMap written? <+: [writing path template (name, state)] ∧
      (result = .ok () → said.filterMap written? = [writing path template (name, state)]) := by
  cases h <;> simp [List.filterMap_cons, written?, writing]

theorem Writes.written (h : Writes path template members said result) :
    said.filterMap written? <+: members.map (writing path template) ∧
      (result = .ok () → said.filterMap written? = members.map (writing path template)) := by
  induction h with
  | done => simp
  | next first _ ih =>
    rw [List.filterMap_append, first.written.2 rfl, List.map_cons, List.singleton_append]
    exact ⟨List.cons_prefix_cons.2 ⟨rfl, ih.1⟩, fun hresult => by rw [ih.2 hresult]⟩
  | failed first members =>
    refine ⟨first.written.1.trans ?_, fun hresult => nomatch hresult⟩
    exact List.prefix_append [_] (members.map (writing path template))

end

/-! ### Collections that can be written to -/

/-- All objects above a collection live, and its index has nothing but members of its own. -/
structure Writable (c : Collection) (memory : Memory) : Prop where
  attached : (Node.collection c).Attached memory
  known : c.KnowsOwn memory

variable {σ : Type} {remote : Remote σ} {c : Collection} {memory : Memory}

namespace Writable

theorem path (h : c.Writable memory) : c.path memory = .ok c.place :=
  path_eq_ok_iff.2 ⟨h.attached, rfl⟩

theorem of_changedAt {later : Memory} (h : c.Writable memory)
    (changed : Memory.ChangedAt c.address memory later) (known : c.KnowsOwn later) :
    c.Writable later where
  attached := by
    have hbelow : c.owner.address.length ≤ c.address.length := Nat.le_succ _
    refine ⟨?_, h.attached.2.of_changedAt changed hbelow⟩
    rw [changed.alive hbelow]
    exact h.attached.1
  known := known

theorem retain (h : c.Writable memory) (names : List String) : c.Writable (c.retain names memory) :=
  h.of_changedAt (changedAt_retain c names memory) (h.known.retain names)

theorem enter (h : c.Writable memory) (name : String) : c.Writable (c.enter name memory) :=
  h.of_changedAt (changedAt_enter c name memory) (h.known.enter name)

end Writable

theorem place_eq (c : Collection) :
    c.place = c.owner.place ++ "/" ++ c.descriptor.remote := Path.render_concat _ _

theorem memberPlace_eq (c : Collection) (name : String) :
    c.memberPlace name = c.place ++ ":" ++ name := by
  apply String.toList_injective
  simp [place, memberPlace, Path.chars, Step.chars, Step.member]

/-! ### One member -/

section

variable (remote) {template : Descriptor} {w : World (List Exchange × σ)} {name : String}

theorem ask_said (call : Call) (w : World (List Exchange × σ)) :
    ∃ answer v, ask remote.traced call w = (answer.mapError .transport, v) ∧
      w.Said [⟨call, answer⟩] v ∧ v.memory = w.memory :=
  ⟨_, _, ask_run _ call w, rfl, rfl⟩

/-- One enumeration tells whether there is a member of a name. -/
theorem Writable.contains_said (writable : c.Writable w.memory) (name : String) :
    ∃ answer v, c.contains remote.traced name w =
        ((answer.map fun names => names.contains name).mapError .transport, v) ∧
      w.Said [⟨.memberNames c.place, answer⟩] v ∧ c.Writable v.memory := by
  refine ⟨(remote.call (.memberNames c.place) w.remote.2).1, _, contains_run writable.path name,
    rfl, ?_⟩
  dsimp only [Remote.traced]
  split
  · exact writable.retain _
  · exact writable

theorem Writable.create_eq (remote : Remote σ) {w : World σ} (writable : c.Writable w.memory)
    (hcheck : Path.checkObjectName name = .ok ()) :
    c.create remote name w = (ask remote (.create c.place name) >>= fun _ => c.cached name) w := by
  rw [create, hcheck]
  exact consult_bind_ok writable.path

theorem Writable.write_said (writable : c.Writable w.memory)
    (hc : c.descriptor.template?.getD c.descriptor = template) (name : String) (state : Json) :
    ∃ answer v, (c.memberFor name w.memory).setState remote.traced state
        { w with memory := c.enter name w.memory } = (answer.mapError .transport, v) ∧
      w.Said [⟨.setState (c.place ++ ":" ++ name) (Projection.toRemote template state), answer⟩] v ∧
      v.memory = c.enter name w.memory := by
  obtain ⟨serial, hmember⟩ := writable.known.memberFor name
  have hdescriptor : (c.member name serial).descriptor = template := hc
  have hpath := path_member (writable.enter name).attached name serial
  rw [hmember, Container.setState, consult_bind_ok hpath, hdescriptor, memberPlace_eq, ask_run]
  exact ⟨_, _, rfl, rfl, rfl⟩

/-- A member is written, and the collection can be written to again. The member is then in the index
if the remote listed or created it. -/
theorem Writable.setItem_run (writable : c.Writable w.memory)
    (hc : c.descriptor.template?.getD c.descriptor = template) (name : String) (state : Json) :
    ∃ said result v, c.setItem remote.traced name state w = (result, v) ∧ w.Said said v ∧
      WritesItem c.place template name state said result ∧ c.Writable v.memory ∧
      ((∃ e ∈ said, c.Lists name e ∨ c.Creates name e) →
        name ∈ Keyed.names (c.known v.memory)) := by
  rw [setItem]
  obtain ⟨fault | names, v, hcontains, hasked, hv⟩ := writable.contains_said remote name
  · rw [bind_run_error hcontains]
    exact ⟨_, _, v, rfl, hasked, .unanswered fault, hv, by simp [Lists, Creates]⟩
  rw [bind_run_ok hcontains]
  by_cases hname : name ∈ names
  · rw [if_pos (List.contains_iff_mem.2 hname), bind_run_ok (cached_run c name v)]
    obtain ⟨answer, u, hwrite, hwritten, hu⟩ := hv.write_said remote hc name state
    exact ⟨_, _, u, hwrite, hasked.trans hwritten, .listed hname answer, hu ▸ hv.enter name,
      fun _ => hu ▸ c.mem_names_enter name v.memory⟩
  rw [if_neg (by simpa using hname)]
  cases hcheck : Path.checkObjectName name with
  | error fault =>
    rw [create, hcheck]
    refine ⟨_, _, v, rfl, hasked, .refused hname hcheck, hv, ?_⟩
    simp [Lists, Creates, hname]
  | ok _ =>
    have hcreate := hv.create_eq remote.traced hcheck
    obtain ⟨fault | _, u, hask, hcreated, hmemory⟩ := ask_said remote (.create c.place name) v
    · rw [bind_run_error (hcreate.trans (bind_run_error hask))]
      refine ⟨_, _, u, rfl, hasked.trans hcreated, .uncreated hname hcheck fault, hmemory ▸ hv, ?_⟩
      simp [Lists, Creates, hname]
    · rw [bind_run_ok (hcreate.trans ((bind_run_ok hask).trans (cached_run c name u)))]
      have hu : c.Writable u.memory := hmemory ▸ hv
      obtain ⟨answer, x, hwrite, hwritten, hx⟩ := hu.write_said remote hc name state
      exact ⟨_, _, x, hwrite, (hasked.trans hcreated).trans hwritten,
        .created hname hcheck answer, hx ▸ hu.enter name,
        fun _ => hx ▸ c.mem_names_enter name u.memory⟩

theorem Writable.setState_run (writable : c.Writable w.memory)
    (hc : c.descriptor.template?.getD c.descriptor = template) (members : Keyed Json) :
    ∃ said result v, c.setState remote.traced (.obj members) w = (result, v) ∧ w.Said said v ∧
      Writes c.place template members said result := by
  change ∃ said result v,
    members.forM (fun entry => c.setItem remote.traced entry.1 entry.2) w = (result, v) ∧ _
  induction members generalizing w with
  | nil => exact ⟨[], _, w, rfl, .refl w, .done⟩
  | cons entry rest ih =>
    rw [List.forM]
    obtain ⟨said, fault | _, v, hrun, hsaid, hfirst, hv, -⟩ :=
      writable.setItem_run remote hc entry.1 entry.2
    · rw [bind_run_error hrun]
      exact ⟨said, _, v, rfl, hsaid, .failed hfirst rest⟩
    · rw [bind_run_ok hrun]
      obtain ⟨more, result, u, hrest, hmore, hwrites⟩ := ih hv
      exact ⟨said ++ more, result, u, hrest, hsaid.trans hmore, .next hfirst hwrites⟩

end

/-! ### All members -/

/-- A collection that callers can get at and that has a path can be written to. -/
theorem writable_of_reaches {w : World σ} (reachable : w.Reachable remote)
    (reaches : w.memory.Reaches (.collection c))
    (attached : (Node.collection c).Attached w.memory) : c.Writable w.memory where
  attached := attached
  known := by
    obtain ⟨reg, sound⟩ := reachable.sound
    exact sound.knowsOwn (reaches.fits sound)

theorem setState_unlocated {w : World σ} {fault : ClientError}
    (h : c.path w.memory = .error fault) (members : Keyed Json) :
    c.setState remote (.obj members) w =
      (if members = [] then .ok () else .error fault, w) := by
  change members.forM (fun entry => c.setItem remote entry.1 entry.2) w = _
  cases members with
  | nil => rfl
  | cons entry rest =>
    have hitem : c.setItem remote entry.1 entry.2 w = (.error fault, w) :=
      bind_run_error (contains_run_error h entry.1)
    rw [List.forM, bind_run_error hitem]
    rfl

theorem setState_unshaped {state : Json} (h : state.members? = none) (w : World σ) :
    c.setState remote state w =
      ((c.path w.memory).bind fun path => .error (.invalidState path), w) := by
  cases state with
  | obj members => cases h
  | _ =>
    cases hpath : c.path w.memory with
    | error fault => exact consult_bind_error hpath
    | ok path => exact consult_bind_ok hpath

/-- The state of a collection that callers can get at is written, with any members in any order,
whatever the remote answers. If the collection has no path, nothing is said. If it has one, then the
members are written one after the other, until one cannot be. Members that are not mentioned are not
spoken of, no member is created that the remote has just listed, and each member is written once
with its state in remote form, up to the first failure. -/
theorem setState_writes {w : World (List Exchange × σ)} (reachable : w.Reachable remote.traced)
    (reaches : w.memory.Reaches (.collection c)) {label : Label} {template : Descriptor}
    (hc : c.descriptor = .collection label template) (members : Keyed Json) :
    (∀ fault, c.path w.memory = .error fault → c.setState remote.traced (.obj members) w =
      (if members = [] then .ok () else .error fault, w)) ∧
    ∀ path, c.path w.memory = .ok path → ∃ owner said result v,
      c.owner.path w.memory = .ok owner ∧ path = owner ++ "/" ++ label.remote ∧
      c.setState remote.traced (.obj members) w = (result, v) ∧ w.Said said v ∧
      Writes path template members said result ∧
      (∀ e ∈ said, Addresses path template members e) ∧ CreatesOmitted path said ∧
      said.filterMap written? <+: members.map (writing path template) ∧
      (result = .ok () → said.filterMap written? = members.map (writing path template)) := by
  refine ⟨fun fault hpath => setState_unlocated hpath members, fun path hpath => ?_⟩
  obtain ⟨attached, rfl⟩ := path_eq_ok_iff.1 hpath
  have writable := writable_of_reaches reachable reaches attached
  have htemplate : c.descriptor.template?.getD c.descriptor = template := by rw [hc]; rfl
  have hremote : c.descriptor.remote = label.remote := by rw [hc]; rfl
  obtain ⟨said, result, v, hrun, hsaid, hwrites⟩ := writable.setState_run remote htemplate members
  refine ⟨c.owner.place, said, result, v, Container.path_eq_ok_iff.2 ⟨attached.2, rfl⟩, ?_, hrun,
    hsaid, hwrites, hwrites.addresses, hwrites.createsOmitted, hwrites.written⟩
  rw [place_eq, hremote]

end Collection

/-! ### A shelf with one book

A collection in which the remote lists one member.
-/

namespace Bookcase

def remote : Remote Unit := .agreeing fun _ => (["a"], ())

def book : Descriptor :=
  .container ⟨"Book", "books", 0⟩ [.leaf ⟨"Pages", "pages", 0⟩ .integer] [] []

def schema : Compiled :=
  ⟨"", "", "Shelf", .container ⟨"Shelf", "shelf", 0⟩ [] [.collection ⟨"Book", "books", 0⟩ book] []⟩

def books : Collection :=
  ⟨Session.root ⟨⟨schema, .compiled⟩, 0⟩, 0, .collection ⟨"Book", "books", 0⟩ book⟩

def world : World (List Exchange × Unit) :=
  (Action.performAll remote.traced [.adopt "s" schema] { remote := ([], ()) }).2

/-- Four books, of which the third one has a name that no book can have. -/
def state : Keyed Json :=
  [("b", .obj [("pages", .int 7)]), ("a", .null), ("x/y", .null), ("c", .null)]

def said : List Exchange :=
  [⟨.memberNames "/Shelf/Book", .ok ["a"]⟩, ⟨.create "/Shelf/Book" "b", .ok ()⟩,
    ⟨.setState "/Shelf/Book:b" (.obj [("Pages", .int 7)]), .ok ()⟩,
    ⟨.memberNames "/Shelf/Book", .ok ["a"]⟩, ⟨.setState "/Shelf/Book:a" .null, .ok ()⟩,
    ⟨.memberNames "/Shelf/Book", .ok ["a"]⟩]

theorem reaches : world.memory.Reaches (.collection books) :=
  .given (.kept (show world.memory.object? "s" = _ from rfl)) (.part (.child List.mem_cons_self))

end Bookcase

/-- A book that is not listed is created, one that is listed is not, and no book is written once a
name is refused. -/
theorem Bookcase.writes :
    Bookcase.world.Reachable Bookcase.remote.traced ∧
      Bookcase.world.memory.Reaches (.collection Bookcase.books) ∧
      Bookcase.books.descriptor = .collection ⟨"Book", "books", 0⟩ Bookcase.book ∧
      Bookcase.books.path Bookcase.world.memory = .ok "/Shelf/Book" ∧
      Bookcase.world.Said Bookcase.said
        (Bookcase.books.setState Bookcase.remote.traced (.obj Bookcase.state) Bookcase.world).2 ∧
      Collection.Writes "/Shelf/Book" Bookcase.book Bookcase.state Bookcase.said
        (.error (.path (.malformed "x/y" .slashInObjectName))) := by
  have reachable : Bookcase.world.Reachable Bookcase.remote.traced := ⟨_, _, rfl⟩
  have located : Bookcase.books.path Bookcase.world.memory = .ok "/Shelf/Book" := by decide +kernel
  have hsaid : Bookcase.world.Said Bookcase.said
      (Bookcase.books.setState Bookcase.remote.traced (.obj Bookcase.state) Bookcase.world).2 := rfl
  refine ⟨reachable, Bookcase.reaches, rfl, located, hsaid, ?_⟩
  obtain ⟨owner, said, result, v, -, -, hrun, hsaid', hwrites, -⟩ :=
    (Collection.setState_writes reachable Bookcase.reaches rfl Bookcase.state).2 _ located
  have hresult : result = .error (.path (.malformed "x/y" .slashInObjectName)) :=
    (congrArg Prod.fst hrun).symm
  rw [hrun] at hsaid
  rw [hsaid.eq hsaid', ← hresult]
  exact hwrites

end SettingsTree
