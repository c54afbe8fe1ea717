import SettingsTree.Proofs.Session.Registry

/-! # Operations of a collection leave traces

Each operation of a collection is a trace of it, for all answers of the remote and whether or not it
ends well. An operation that gives members gives the ones that are then in the index.
-/

namespace SettingsTree

/-- An operation gave the object for the member of a name. -/
def Operation.Gave (operation : Operation) (reply : Reply Node) (name : String)
    (member : Container) : Prop :=
  (operation = .get name ∨ operation = .create name) ∧ reply = .object (.container member) ∨
    operation = .entries ∧ ∃ members, reply = .entries members ∧ (name, .container member) ∈ members

def Reply.objects {ν : Type} : Reply ν → List ν
  | .object value => [value]
  | .entries members => members.map Prod.snd
  | _ => []

namespace Reply

variable {ν μ κ : Type}

theorem objects_map (f : ν → μ) (reply : Reply ν) :
    (reply.map f).objects = reply.objects.map f := by
  cases reply with
  | entries members => simp [map, objects, Function.comp_def]
  | _ => rfl

theorem map_map (f : ν → μ) (g : μ → κ) (reply : Reply ν) :
    (reply.map f).map g = reply.map (g ∘ f) := by
  cases reply with
  | entries members => simp [map, Function.comp_def]
  | _ => rfl

theorem map_congr {f g : ν → μ} {reply : Reply ν} (h : ∀ n ∈ reply.objects, f n = g n) :
    reply.map f = reply.map g := by
  cases reply with
  | object n => exact congrArg object (h n List.mem_cons_self)
  | entries members =>
    refine congrArg entries (List.map_congr_left fun entry hentry => ?_)
    rw [h entry.2 (List.mem_map_of_mem hentry)]
  | _ => rfl

end Reply

/-- What an operation on an object may give: the object, its owner if it lives, what it declares, or
a member from its index. -/
inductive Node.Yields (memory : Memory) : Node → Node → Prop
  | self (n : Node) : Yields memory n n
  | home (n : Node) (alive : memory.alive n.home.address) : Yields memory n (.container n.home)
  | part {c : Container} {n : Node} (offers : c.Offers n) : Yields memory (.container c) n
  | member {c : Collection} {name : String} {member : Container}
      (known : Keyed.get? name (c.known memory) = some member) :
      Yields memory (.collection c) (.container member)

/-- All objects of a reply come from an object. -/
def Reply.From (n : Node) (reply : Reply Node) (memory : Memory) : Prop :=
  ∀ m ∈ reply.objects, n.Yields memory m

theorem Reply.from_object {n m : Node} {memory : Memory} (h : n.Yields memory m) :
    (Reply.object m).From n memory := by
  intro m' hm'
  rw [List.mem_singleton.1 hm']
  exact h

theorem Reply.from_of_objects_eq_nil {n : Node} {reply : Reply Node} {memory : Memory}
    (h : reply.objects = []) : reply.From n memory := by
  intro m hm
  rw [h] at hm
  exact absurd hm List.not_mem_nil

namespace Collection

variable {σ : Type} (remote : Remote σ) (c : Collection)

/-- The objects of a reply come from the collection, and a member that was asked for is in the index
under its name. -/
structure Backs (c : Collection) (operation : Operation) (reply : Reply Node) (memory : Memory) :
    Prop where
  gave : ∀ name member, operation.Gave reply name member →
    Keyed.get? name (c.known memory) = some member
  objects : reply.From (.collection c) memory

private abbrev Any : List Exchange → Memory → Prop := fun _ _ => True

theorem refresh_traced : Traced remote c Any (c.refresh remote)
    fun names said _ => ∀ name ∈ names, c.Attested said name := by
  intro start said w trace _
  cases hpath : c.path w.memory with
  | error fault =>
    rw [refresh_run_error hpath]
    exact ⟨said, trace, by simp⟩
  | ok path =>
    obtain rfl := (path_eq_ok_iff.1 hpath).2
    rw [refresh_run hpath]
    cases hanswer : (remote.call (.memberNames c.place) w.remote).1 with
    | error fault =>
      refine ⟨_, trace.exchange (.memberNames c.place) ?_ ?_, by simp [Except.mapError]⟩
      · rintro ⟨names, heq⟩
        simp [Remote.exchange, hanswer] at heq
      · intro name heq
        cases congrArg Exchange.call heq
    | ok names =>
      refine ⟨_, trace.enumerate hanswer, fun listed hlisted name hname => ?_⟩
      simp only [Except.mapError, Except.ok.injEq] at hlisted
      exact Lists.attested ⟨names, rfl, hlisted ▸ hname⟩ said

theorem delete_traced (name : String) :
    Traced remote c Any (c.delete remote name) fun _ _ _ => True := by
  intro start said w trace _
  cases hpath : c.memberPath w.memory name with
  | error fault =>
    rw [delete_run_error hpath]
    exact ⟨said, trace, by simp⟩
  | ok path =>
    obtain rfl := (memberPath_eq_ok_iff.1 hpath).2
    rw [delete_run hpath]
    cases hanswer : (remote.call (.delete (c.memberPlace name)) w.remote).1 with
    | error fault =>
      refine ⟨_, trace.exchange (.delete (c.memberPlace name)) ?_ ?_, fun _ _ => trivial⟩
      · rintro ⟨names, heq⟩
        cases congrArg Exchange.call heq
      · intro other heq
        simp [Deletes, Remote.exchange, hanswer] at heq
    | ok _ => exact ⟨_, trace.delete hanswer, fun _ _ => trivial⟩

theorem cached_traced (name : String) :
    Traced remote c (fun said _ => c.Attested said name) (c.cached name)
      fun member _ m => Keyed.get? name (c.known m) = some member := by
  intro start said w trace hattested
  rw [cached_run]
  refine ⟨said, trace.enter hattested, fun member hmember => ?_⟩
  obtain rfl := Except.ok.inj hmember
  rw [get?_known_enter, if_pos rfl]

theorem entries_traced : Traced remote c Any (c.entries remote)
    fun members _ m => ∀ entry ∈ members, Keyed.get? entry.1 (c.known m) = some entry.2 := by
  refine (refresh_traced remote c).bind fun names => ?_
  intro start said w trace hattested
  rw [mapM_cached_run]
  refine ⟨said, trace.enterAll hattested, fun members hmembers entry hentry => ?_⟩
  obtain rfl := Except.ok.inj hmembers
  obtain ⟨name, hname, rfl⟩ := List.mem_map.1 hentry
  exact get?_known_enterAll_of_mem hname w.memory

theorem size_traced : Traced remote c Any (c.size remote) fun _ _ _ => True :=
  (refresh_traced remote c).bind fun _ => .pure fun _ _ _ => trivial

theorem isEmpty_traced : Traced remote c Any (c.isEmpty remote) fun _ _ _ => True :=
  (size_traced remote c).bind fun _ => .pure fun _ _ _ => trivial

theorem contains_traced (name : String) : Traced remote c Any (c.contains remote name)
    fun found said _ => found = true → c.Attested said name :=
  (refresh_traced remote c).bind fun _ => .pure fun _ _ hattested hfound =>
    hattested name (List.contains_iff_mem.1 hfound)

theorem get_traced (name : String) : Traced remote c Any (c.get remote name)
    fun member _ m => Keyed.get? name (c.known m) = some member := by
  refine (contains_traced remote c name).bind fun found => ?_
  cases found with
  | true => exact (cached_traced remote c name).weaken (fun _ _ h => h rfl) fun _ _ _ h => h
  | false =>
    exact (Traced.consulted _).bind fun _ => .throw _

theorem create_traced (name : String) : Traced remote c Any (c.create remote name)
    fun member _ m => Keyed.get? name (c.known m) = some member := by
  unfold create
  cases Path.checkObjectName name with
  | error fault => exact .throw _
  | ok _ =>
    have hpath : Traced remote c Any (Client.consult (c.path ·)) fun path _ _ => path = c.place :=
      .consult fun path _ m hpath _ => (path_eq_ok_iff.1 hpath).2
    refine hpath.bind fun path => .bind ?_ fun _ => cached_traced remote c name
    refine .ask (by simp) (by simp) fun answer said m hplace => ?_
    subst hplace
    exact Creates.attested rfl said

theorem writing_traced (member : Container) (state : Json) (pre : List Exchange → Memory → Prop) :
    Traced remote c pre (member.setState remote state) fun _ _ _ => True :=
  (Traced.consulted _).bind fun _ => .asked (by simp) (by simp)

theorem setItem_traced (name : String) (state : Json) :
    Traced remote c Any (c.setItem remote name state) fun _ _ _ => True := by
  refine (contains_traced remote c name).bind fun found => ?_
  cases found with
  | true =>
    exact Traced.bind ((cached_traced remote c name).weaken (fun _ _ h => h rfl) fun _ _ _ h => h)
      fun member => writing_traced remote c member state _
  | false =>
    exact Traced.bind ((create_traced remote c name).weaken (fun _ _ _ => trivial) fun _ _ _ h => h)
      fun member => writing_traced remote c member state _

theorem getState_traced : Traced remote c Any (c.getState remote) fun _ _ _ => True :=
  (Traced.consulted _).bind fun _ => (Traced.asked (by simp) (by simp)).bind fun _ =>
    .pure fun _ _ _ => trivial

theorem setState_traced (state : Json) :
    Traced remote c Any (c.setState remote state) fun _ _ _ => True := by
  unfold setState
  cases state with
  | obj members => exact .forM fun entry => setItem_traced remote c entry.1 entry.2
  | _ =>
    exact (Traced.consulted _).bind fun _ => .throw _

variable {remote c} {operation : Operation}

theorem Backs.of_objects_eq_nil {reply : Reply Node} {memory : Memory} (h : reply.objects = []) :
    c.Backs operation reply memory where
  gave name member hgave := by
    rcases hgave with ⟨-, rfl⟩ | ⟨-, members, rfl, hmem⟩
    · simp [Reply.objects] at h
    · rw [List.map_eq_nil_iff.1 h] at hmem
      exact absurd hmem List.not_mem_nil
  objects := Reply.from_of_objects_eq_nil h

/-- Whatever is done with a collection is a trace of it. -/
theorem perform_traced {act : Client σ (Reply Node)}
    (h : (Node.collection c).perform remote operation = some act) :
    Traced remote c Any act fun reply _ m => c.Backs operation reply m := by
  have member_backs {name : String} {member : Container} {m : Memory}
      (hop : operation = .get name ∨ operation = .create name)
      (hknown : Keyed.get? name (c.known m) = some member) :
      c.Backs operation (.object (.container member)) m := by
    refine ⟨fun other found hgave => ?_, Reply.from_object (.member hknown)⟩
    · rcases hgave with ⟨hop', heq⟩ | ⟨-, members, heq, -⟩
      · have hname : name = other := by
          rcases hop with rfl | rfl <;> rcases hop' with h | h <;> cases h <;> rfl
        cases heq
        exact hname ▸ hknown
      · cases heq
  cases operation with
  | get name =>
    exact Option.some.inj h ▸ (get_traced remote c name).map fun _ _ _ hknown =>
      member_backs (Or.inl rfl) hknown
  | create name =>
    exact Option.some.inj h ▸ (create_traced remote c name).map fun _ _ _ hknown =>
      member_backs (Or.inr rfl) hknown
  | entries =>
    obtain rfl := Option.some.inj h
    refine (entries_traced remote c).map fun members _ m hknown => ⟨fun name member hgave => ?_,
      fun n hn => ?_⟩
    · rcases hgave with ⟨-, heq⟩ | ⟨-, shown, heq, hmem⟩
      · cases heq
      · cases heq
        obtain ⟨entry, hentry, heq⟩ := List.mem_map.1 hmem
        cases heq
        exact hknown entry hentry
    · simp only [Reply.objects, List.map_map, List.mem_map] at hn
      obtain ⟨entry, hentry, rfl⟩ := hn
      exact .member (hknown entry hentry)
  | self =>
    refine Option.some.inj h ▸ .pure fun _ _ _ => ⟨fun _ _ hgave => ?_, Reply.from_object (.self _)⟩
    simp [Operation.Gave] at hgave
  | owner =>
    refine Option.some.inj h ▸ .consult fun reply _ m hreply _ => ?_
    obtain ⟨_, hrequire, rfl⟩ := map_eq_ok_iff.1 hreply
    have alive := Memory.require_eq_ok_iff.1 hrequire
    refine ⟨fun _ _ hgave => ?_, Reply.from_object (.home (.collection c) alive)⟩
    simp [Operation.Gave] at hgave
  -- The replies of the other operations have no objects, so it is enough that they are traces.
  | path | typePath | memberPath =>
    refine Option.some.inj h ▸ .consult fun reply _ m hreply _ => ?_
    obtain ⟨_, -, rfl⟩ := map_eq_ok_iff.1 hreply
    exact .of_objects_eq_nil rfl
  | getState =>
    exact Option.some.inj h ▸ (getState_traced remote c).map fun _ _ _ _ => .of_objects_eq_nil rfl
  | setState state =>
    exact Option.some.inj h ▸
      (setState_traced remote c state).map fun _ _ _ _ => .of_objects_eq_nil rfl
  | names =>
    exact Option.some.inj h ▸ (refresh_traced remote c).map fun _ _ _ _ => .of_objects_eq_nil rfl
  | size =>
    exact Option.some.inj h ▸ (size_traced remote c).map fun _ _ _ _ => .of_objects_eq_nil rfl
  | isEmpty =>
    exact Option.some.inj h ▸ (isEmpty_traced remote c).map fun _ _ _ _ => .of_objects_eq_nil rfl
  | contains name =>
    exact Option.some.inj h ▸
      (contains_traced remote c name).map fun _ _ _ _ => .of_objects_eq_nil rfl
  | setItem name state =>
    exact Option.some.inj h ▸
      (setItem_traced remote c name state).map fun _ _ _ _ => .of_objects_eq_nil rfl
  | delete name =>
    exact Option.some.inj h ▸
      (delete_traced remote c name).map fun _ _ _ _ => .of_objects_eq_nil rfl
  | setAttribute | getProperty | setProperty | lookup | child | collection | property | command
  | allowedValues | invoke => cases h

end Collection

end SettingsTree
