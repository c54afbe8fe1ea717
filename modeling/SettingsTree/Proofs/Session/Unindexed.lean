import SettingsTree.Proofs.Session.Anonymous
import SettingsTree.Proofs.Session.Linked
import SettingsTree.Proofs.Session.Mirror
import SettingsTree.Proofs.Session.Sound

/-! # Operations in which the index does not show

Each operation of an object that callers keep mirrors the operation of a client that remembers
nothing, where an object that is given is told without numbers. All that this needs of an index is
that its entries are members of the collection under their names.
-/

namespace SettingsTree

open Client

variable {σ : Type} {remote : Remote σ} {memory : Memory}

/-! ### Objects that operations can start from -/

/-- An object that callers keep, in sound memory. -/
structure Node.Ready (n : Node) (memory : Memory) : Prop where
  anchored : n.home.Anchored memory
  fits : ∃ reg, memory.Sound reg ∧ n.Fits reg memory.fresh

/-- A collection that callers keep, with nothing but members of its own in its index. -/
structure Collection.Ready (c : Collection) (memory : Memory) : Prop where
  anchored : c.owner.Anchored memory
  known : ∀ name member, (name, member) ∈ c.known memory → ∃ serial, member = c.member name serial

namespace Node.Ready

variable {n : Node}

theorem path (h : n.Ready memory) : n.path memory = .ok n.place := path_of_rooted h.anchored.rooted

theorem home_path (h : n.Ready memory) : n.home.path memory = .ok n.home.place :=
  path_of_rooted (n := .container n.home) h.anchored.rooted

theorem require (h : n.Ready memory) : memory.require n.home.address = .ok () :=
  Memory.require_eq_ok_iff.2 h.anchored.rooted.alive

theorem collection {c : Collection} (h : (Node.collection c).Ready memory) : c.Ready memory := by
  obtain ⟨reg, sound, hfits⟩ := h.fits
  refine ⟨h.anchored, fun name member hmem => ?_⟩
  obtain ⟨serial, heq, -, -⟩ := (sound.known hfits).2 name member hmem
  exact ⟨serial, heq⟩

theorem offers {c : Container} (h : (Node.container c).Ready memory) (hn : c.Offers n) :
    n.Ready memory := by
  obtain ⟨reg, sound, hfits⟩ := h.fits
  exact ⟨hn.anchored h.anchored, reg, sound, hfits.offers hn⟩

end Node.Ready

/-! ### Settings and commands -/

namespace Leaf

variable (l : Leaf)

private theorem place_anonymous : (Node.leaf l.anonymous).place = (Node.leaf l).place :=
  (Node.leaf l).place_anonymous

theorem getState_mirrors :
    Mirrors (Node.leaf l).Ready id (l.getState remote) (Direct.readLeaf remote l.anonymous)
      fun _ _ => True := by
  rw [Direct.readLeaf, place_anonymous]
  exact .consulted (fun _ hm => hm.path) (.ask fun _ _ _ => trivial)

theorem setState_mirrors (value : Json) :
    Mirrors (Node.leaf l).Ready id (l.setState remote value)
      (Direct.writeLeaf remote l.anonymous value) fun _ _ => True := by
  rw [Direct.writeLeaf, place_anonymous]
  exact .consulted (fun _ hm => hm.path) (.ask fun _ _ _ => trivial)

theorem allowedValues_mirrors :
    Mirrors (Node.leaf l).Ready id (l.allowedValues remote)
      (Direct.ask remote (.propertyOptions l.anonymous.owner.place l.label.remote))
      fun _ _ => True := by
  have hplace : l.anonymous.owner.place = l.owner.place := l.owner.place_anonymous
  rw [hplace]
  exact .consulted (fun _ hm => hm.require) (.consulted (fun _ hm => hm.home_path)
    (.ask fun _ _ _ => trivial))

end Leaf

theorem Command.invoke_mirrors (c : Command) (keywords : List (String × Json)) :
    Mirrors (Node.command c).Ready id (c.invoke remote keywords)
      (Direct.invoke remote c.anonymous keywords) fun _ _ => True := by
  have hplace : c.anonymous.owner.place = c.owner.place := c.owner.place_anonymous
  unfold Command.invoke Direct.invoke
  rw [hplace]
  dsimp only [Command.anonymous]
  cases c.signature.refusal? c.label.localName (Keyed.ofList keywords) with
  | some fault => exact .throw _
  | none =>
    exact .consulted (fun _ hm => hm.require) (.consulted (fun _ hm => hm.home_path)
      (.ask fun _ _ _ => trivial))

/-! ### Containers -/

namespace Container

variable (c : Container)

theorem getState_mirrors :
    Mirrors (Node.container c).Ready id (c.getState remote)
      (Direct.readContainer remote c.anonymous) fun _ _ => True := by
  rw [Direct.readContainer, place_anonymous, descriptor_anonymous]
  exact .consulted (fun _ hm => hm.path) (.bind (.ask fun _ _ hm => hm) fun _ =>
    .pure fun _ _ => trivial)

theorem setState_mirrors {pre : Memory → Prop} (hpath : ∀ m, pre m → c.path m = .ok c.place)
    (state : Json) :
    Mirrors pre id (c.setState remote state) (Direct.writeContainer remote c.anonymous state)
      fun _ m => pre m := by
  rw [Direct.writeContainer, place_anonymous, descriptor_anonymous]
  exact .consulted hpath (.ask fun _ _ hm => hm)

variable {α β : Type} {f : α → β} {post : α → Memory → Prop} (name : String)

theorem unknown_mirrors :
    Mirrors (σ := σ) (Node.container c).Ready f (consult (c.unknown · name))
      (Direct.unknown c.anonymous name) post := by
  rw [Direct.unknown, place_anonymous]
  refine .refused fun m hm => ?_
  have hpath : c.path m = .ok c.place := hm.path
  rw [unknown, hpath]
  rfl

theorem mismatch_mirrors (wanted : Wanted) :
    Mirrors (σ := σ) (Node.container c).Ready f (consult (c.mismatch · name wanted))
      (Direct.mismatch c.anonymous name wanted) post := by
  rw [Direct.mismatch, place_anonymous]
  refine .refused fun m hm => ?_
  have hpath : c.path m = .ok c.place := hm.path
  rw [mismatch, hpath]
  rfl

theorem pick_mirrors {wanted : Wanted} {select : Node → Option α} {f : α → α}
    (hselect : ∀ n, select n.anonymous = (select n).map f) :
    Mirrors (σ := σ) (Node.container c).Ready f (consult (pick wanted select · c name))
      (Direct.pick wanted select c.anonymous name)
      fun a m => (Node.container c).Ready m ∧ ∃ n, c.Offers n ∧ select n = some a := by
  rw [Direct.pick, lookup?_anonymous]
  unfold pick
  cases hlookup : c.lookup? name with
  | none => exact c.unknown_mirrors name
  | some n =>
    simp only [Option.map_some, hselect]
    cases hfound : select n with
    | none => exact c.mismatch_mirrors name wanted
    | some found =>
      refine .consult (fun _ _ => rfl) fun a m hm ha => ?_
      obtain rfl := Except.ok.inj ha
      exact ⟨hm, n, offers_of_lookup? hlookup, hfound⟩

theorem propertyNamed_mirrors :
    Mirrors (σ := σ) (Node.container c).Ready Leaf.anonymous (consult (c.propertyNamed · name))
      (Direct.pick .property Node.leaf? c.anonymous name) fun l m => (Node.leaf l).Ready m := by
  refine (c.pick_mirrors name Node.leaf?_anonymous).weaken (fun _ hm => hm) ?_
  rintro l m ⟨hm, n, hn, hl⟩
  exact Node.eq_of_leaf? hl ▸ hm.offers hn

theorem getPropertyState_mirrors :
    Mirrors (Node.container c).Ready id (c.getPropertyState remote name)
      (do Direct.readLeaf remote (← Direct.pick .property Node.leaf? c.anonymous name))
      fun _ _ => True :=
  (c.propertyNamed_mirrors name).bind fun l => l.getState_mirrors

theorem setPropertyState_mirrors (value : Json) :
    Mirrors (Node.container c).Ready id (c.setPropertyState remote name value)
      (do Direct.writeLeaf remote (← Direct.pick .property Node.leaf? c.anonymous name) value)
      fun _ _ => True :=
  (c.propertyNamed_mirrors name).bind fun l => l.setState_mirrors value

end Container

/-! ### Collections -/

namespace Collection

variable (c : Collection) (name : String)

section

variable {c} {names : List String}

theorem Ready.attached (h : c.Ready memory) : (Node.collection c).Attached memory :=
  Node.attached_of_rooted (n := .collection c) h.anchored.rooted

theorem Ready.path (h : c.Ready memory) : c.path memory = .ok c.place :=
  path_eq_ok_iff.2 ⟨h.attached, rfl⟩

theorem Ready.memberPath (h : c.Ready memory) :
    c.memberPath memory name = .ok (c.memberPlace name) :=
  memberPath_eq_ok_iff.2 ⟨h.attached, rfl⟩

/-- Callers keep what they kept, whatever is done with the index of a collection. -/
theorem Ready.of_changedAt {below : Address} {later : Memory} (h : c.Ready memory)
    (changed : Memory.ChangedAt below memory later)
    (known : c.KnowsOwn later) : c.Ready later where
  anchored := by
    refine h.anchored.mono fun a ha => ?_
    rw [Memory.held, changed.sessions, changed.objects]
    exact ha
  known := known

theorem Ready.retain (h : c.Ready memory) (names : List String) :
    c.Ready (c.retain names memory) :=
  h.of_changedAt (changedAt_retain c names memory) (KnowsOwn.retain h.known names)

theorem Ready.enter (h : c.Ready memory) : c.Ready (c.enter name memory) :=
  h.of_changedAt (changedAt_enter c name memory) (KnowsOwn.enter h.known name)

theorem Ready.enterAll (h : c.Ready memory) (names : List String) :
    c.Ready (c.enterAll names memory) := by
  induction names generalizing memory with
  | nil => exact h
  | cons first rest ih => exact ih (h.enter first)

end

theorem refresh_mirrors :
    Mirrors c.Ready id (c.refresh remote) (Direct.names remote c.anonymous)
      fun _ m => c.Ready m := by
  rw [Direct.names, place_anonymous]
  intro w ready
  rw [refresh_run ready.path, Direct.ask]
  cases (remote.call (.memberNames c.place) w.remote).1 with
  | error fault => exact ⟨rfl, fun _ ha => nomatch ha⟩
  | ok names => exact ⟨rfl, fun _ _ => ready.retain names⟩

theorem size_mirrors :
    Mirrors c.Ready id (c.size remote) (Direct.size remote c.anonymous) fun _ _ => True :=
  c.refresh_mirrors.bind fun _ => .pure fun _ _ => trivial

theorem isEmpty_mirrors :
    Mirrors c.Ready id (c.isEmpty remote) (Direct.isEmpty remote c.anonymous) fun _ _ => True :=
  c.size_mirrors.bind fun _ => .pure fun _ _ => trivial

theorem contains_mirrors :
    Mirrors c.Ready id (c.contains remote name) (Direct.contains remote c.anonymous name)
      fun _ m => c.Ready m :=
  c.refresh_mirrors.bind fun _ => .pure fun _ hm => hm

/-- Whether a member is in the index or not, it is one that stands at its place. -/
theorem cached_mirrors :
    Mirrors (σ := σ) c.Ready Container.anonymous (c.cached name)
      (Pure.pure (c.anonymous.member name 0))
      fun member m => c.Ready m ∧ ∃ serial, member = c.member name serial := by
  intro w ready
  rw [cached_run]
  obtain ⟨serial, hmember⟩ := KnowsOwn.memberFor ready.known name
  refine ⟨?_, fun member ha => ⟨ready.enter name, serial, ?_⟩⟩
  · rw [hmember]
    rfl
  · rw [← Except.ok.inj ha, hmember]

theorem get_mirrors :
    Mirrors c.Ready Container.anonymous (c.get remote name)
      (Direct.get remote c.anonymous name)
      fun _ _ => True := by
  refine (c.contains_mirrors name).bind fun found => ?_
  cases found with
  | true => exact (c.cached_mirrors name).weaken (fun _ hm => hm) fun _ _ _ => trivial
  | false =>
    dsimp only [id]
    rw [place_anonymous]
    exact .consulted (fun m hm => hm.path) (.throw _)

theorem create_mirrors :
    Mirrors c.Ready Container.anonymous (c.create remote name)
      (Direct.create remote c.anonymous name)
      fun member m => c.Ready m ∧ ∃ serial, member = c.member name serial := by
  unfold create Direct.create
  rw [place_anonymous]
  cases Path.checkObjectName name with
  | error fault => exact .throw _
  | ok _ =>
    exact .consulted (fun m hm => hm.path) (.bind (.ask fun _ _ hm => hm) fun _ =>
      c.cached_mirrors name)

theorem writing_mirrors (member : Container) (state : Json) :
    Mirrors (fun m => c.Ready m ∧ ∃ serial, member = c.member name serial) id
      (member.setState remote state) (Direct.writeContainer remote member.anonymous state)
      fun _ m => c.Ready m := by
  refine (member.setState_mirrors ?_ state).weaken (fun _ hm => hm) fun _ _ hm => hm.1
  rintro m ⟨ready, serial, rfl⟩
  exact path_member ready.attached name serial

theorem setItem_mirrors (state : Json) :
    Mirrors c.Ready id (c.setItem remote name state)
      (Direct.setItem remote c.anonymous name state) fun _ m => c.Ready m := by
  refine (c.contains_mirrors name).bind fun found => ?_
  cases found with
  | true => exact (c.cached_mirrors name).bind fun member => c.writing_mirrors name member state
  | false => exact (c.create_mirrors name).bind fun member => c.writing_mirrors name member state

theorem delete_mirrors :
    Mirrors c.Ready id (c.delete remote name)
      (Direct.ask remote (.delete (c.anonymous.memberPlace name))) fun _ _ => True := by
  rw [memberPlace_anonymous]
  intro w ready
  rw [delete_run (ready.memberPath name), Direct.ask]
  cases (remote.call (.delete (c.memberPlace name)) w.remote).1 <;>
    exact ⟨rfl, fun _ _ => trivial⟩

theorem entries_mirrors :
    Mirrors c.Ready (List.map fun entry => (entry.1, entry.2.anonymous)) (c.entries remote)
      (Direct.entries remote c.anonymous) fun _ _ => True := by
  refine c.refresh_mirrors.bind fun names => ?_
  intro w ready
  rw [mapM_cached_run]
  refine ⟨?_, fun _ _ => trivial⟩
  have hmember (name : String) :
      (c.memberFor name (c.enterAll names w.memory)).anonymous = c.anonymous.member name 0 := by
    obtain ⟨serial, heq⟩ := KnowsOwn.memberFor (ready.enterAll names).known name
    rw [heq, anonymous_member]
  simp only [Except.map, List.map_map, Function.comp_def, hmember, id]
  rfl

theorem getState_mirrors :
    Mirrors c.Ready id (c.getState remote) (Direct.readCollection remote c.anonymous)
      fun _ _ => True := by
  rw [Direct.readCollection, place_anonymous, descriptor_anonymous]
  exact .consulted (fun _ hm => hm.path) (.bind (.ask fun _ _ hm => hm) fun _ =>
    .pure fun _ _ => trivial)

theorem setState_mirrors (state : Json) :
    Mirrors c.Ready id (c.setState remote state) (Direct.writeCollection remote c.anonymous state)
      fun _ _ => True := by
  unfold setState Direct.writeCollection
  rw [place_anonymous]
  cases state with
  | obj members =>
    have hall : Mirrors c.Ready id (members.forM fun entry => c.setItem remote entry.1 entry.2)
        (members.forM fun entry => Direct.setItem remote c.anonymous entry.1 entry.2)
        fun _ m => c.Ready m := .forM fun entry => c.setItem_mirrors entry.1 entry.2
    exact hall.weaken (fun _ hm => hm) fun _ _ _ => trivial
  | _ => exact .consulted (fun m hm => hm.path) (.throw _)

end Collection

/-! ### Operations -/

/-- What is done with an object gives what it gives to a client that remembers nothing. -/
def Node.Mirrored (n : Node) :
    Option (Client σ (Reply Node)) → Option (Direct σ (Reply Node)) → Prop :=
  Option.Rel fun act reference =>
    Mirrors n.Ready (Reply.map Node.anonymous) act reference fun _ _ => True

theorem Container.setAttribute_mirrors (c : Container) (name : String) (value : Json) :
    Mirrors (Node.container c).Ready id (c.setAttribute remote name value)
      (Direct.writeMember remote c.anonymous name value) fun _ _ => True := by
  unfold Container.setAttribute Direct.writeMember
  rw [lookup?_anonymous]
  cases hlookup : c.lookup? name with
  | none => exact c.unknown_mirrors name
  | some n =>
    have offers := offers_of_lookup? hlookup
    cases n with
    | leaf l =>
      exact (l.setState_mirrors value).weaken (fun _ hm => hm.offers offers) fun _ _ h => h
    | container d =>
      exact (d.setState_mirrors (fun _ hm => Node.Ready.path (n := .container d) hm) value).weaken
        (fun _ hm => hm.offers offers) fun _ _ _ => trivial
    | collection d =>
      exact (d.setState_mirrors value).weaken (fun _ hm => (hm.offers offers).collection)
        fun _ _ h => h
    | command => exact c.mismatch_mirrors name .propertyOrChild

theorem Container.lookup_mirrors (c : Container) (name : String) :
    Mirrors (σ := σ) (Node.container c).Ready (Reply.map Node.anonymous)
      (pure (((c.lookup? name).map .object).getD .nothing))
      (pure (((c.anonymous.lookup? name).map .object).getD .nothing)) fun _ _ => True := by
  rw [lookup?_anonymous]
  cases c.lookup? name <;> exact .pure fun _ _ => trivial

theorem Container.given_mirrors {α : Type} {wanted : Wanted} {select : Node → Option α} {f : α → α}
    {g : α → Node} (c : Container) (name : String)
    (hselect : ∀ n, select n.anonymous = (select n).map f) (hg : ∀ a, (g a).anonymous = g (f a)) :
    Mirrors (σ := σ) (Node.container c).Ready (Reply.map Node.anonymous)
      (consult fun m => (pick wanted select m c name).map fun a => Reply.object (g a))
      ((fun a => .object (g a)) <$> Direct.pick wanted select c.anonymous name)
      fun _ _ => True := by
  rw [consult_map]
  exact (c.pick_mirrors name hselect).map fun a => congrArg Reply.object (hg a)

theorem Node.self_mirrors (n : Node) :
    Mirrors (σ := σ) n.Ready (Reply.map Node.anonymous) (pure (.object n))
      (pure (.object n.anonymous)) fun _ _ => True :=
  .pure fun _ _ => trivial

theorem Node.text_mirrors (n : Node) {look : Memory → Except ClientError String} {text : String}
    (h : ∀ m, n.Ready m → look m = .ok text) :
    Mirrors (σ := σ) n.Ready (Reply.map Node.anonymous) (consult fun m => (look m).map .text)
      (pure (.text text)) fun _ _ => True :=
  .known (fun m hm => by rw [h m hm]; rfl) rfl

theorem Node.path_mirrors (n : Node) :
    Mirrors (σ := σ) n.Ready (Reply.map Node.anonymous) (consult fun m => (n.path m).map .text)
      (pure (.text n.anonymous.place)) fun _ _ => True := by
  rw [place_anonymous]
  exact n.text_mirrors fun _ hm => hm.path

theorem Node.typePath_mirrors (n : Node) :
    Mirrors (σ := σ) n.Ready (Reply.map Node.anonymous)
      (consult fun m => ((n.path m).map Path.typePath).map .text)
      (pure (.text (Path.typePath n.anonymous.place))) fun _ _ => True := by
  rw [place_anonymous]
  refine n.text_mirrors fun m hm => ?_
  rw [hm.path]
  rfl

theorem Node.takeOwner_mirrors (n : Node) :
    Mirrors (σ := σ) n.Ready (Reply.map Node.anonymous) (takeOwner n.home)
      (pure (.object (.container n.home.anonymous))) fun _ _ => True :=
  .known (fun _ hm => by rw [hm.require]; rfl) rfl

theorem Container.perform_mirrored (c : Container) (operation : Operation) :
    (Node.container c).Mirrored ((Node.container c).perform remote operation)
      (Direct.perform remote (Node.container c).anonymous operation) := by
  cases operation with
  | self => exact .some (Node.container c).self_mirrors
  | path => exact .some (Node.container c).path_mirrors
  | typePath => exact .some (Node.container c).typePath_mirrors
  | getState => exact .some (c.getState_mirrors.map fun _ => rfl)
  | setState state =>
    exact .some ((c.setState_mirrors (fun _ hm => hm.path) state).map fun _ => rfl)
  | setAttribute name state => exact .some ((c.setAttribute_mirrors name state).map fun _ => rfl)
  | getProperty name => exact .some ((c.getPropertyState_mirrors name).map fun _ => rfl)
  | setProperty name state =>
    exact .some ((c.setPropertyState_mirrors name state).map fun _ => rfl)
  | lookup name => exact .some (c.lookup_mirrors name)
  | child name => exact .some (c.given_mirrors name Node.container?_anonymous fun _ => rfl)
  | collection name => exact .some (c.given_mirrors name Node.collection?_anonymous fun _ => rfl)
  | property name => exact .some (c.given_mirrors name Node.leaf?_anonymous fun _ => rfl)
  | command name => exact .some (c.given_mirrors name Node.command?_anonymous fun _ => rfl)
  | owner | memberPath | names | entries | size | isEmpty | contains | get | create
  | setItem | delete | allowedValues | invoke => exact .none

theorem Collection.perform_mirrored (c : Collection) (operation : Operation) :
    (Node.collection c).Mirrored ((Node.collection c).perform remote operation)
      (Direct.perform remote (Node.collection c).anonymous operation) := by
  -- What holds where the index is in order holds where callers keep the collection.
  have lift {α β : Type} {f : α → β} {g : Reply Node → Reply Node} {u : α → Reply Node}
      {v : β → Reply Node} {x : Client σ α} {y : Direct σ β} {post : α → Memory → Prop}
      (h : Mirrors c.Ready f x y post) (huv : ∀ a, g (u a) = v (f a)) :
      Mirrors (Node.collection c).Ready g (u <$> x) (v <$> y) fun _ _ => True :=
    (h.map huv).weaken (fun _ hm => hm.collection) fun _ _ h => h
  cases operation with
  | self => exact .some (Node.collection c).self_mirrors
  | path => exact .some (Node.collection c).path_mirrors
  | typePath => exact .some (Node.collection c).typePath_mirrors
  | owner => exact .some (Node.collection c).takeOwner_mirrors
  | memberPath name =>
    refine .some ?_
    rw [memberPlace_anonymous]
    exact (Node.collection c).text_mirrors fun m hm => hm.collection.memberPath name
  | getState => exact .some (lift c.getState_mirrors fun _ => rfl)
  | setState state => exact .some (lift (c.setState_mirrors state) fun _ => rfl)
  | names => exact .some (lift c.refresh_mirrors fun _ => rfl)
  | entries =>
    refine .some (lift c.entries_mirrors fun members => ?_)
    simp only [Reply.map, List.map_map, Function.comp_def, Node.anonymous]
  | size => exact .some (lift c.size_mirrors fun _ => rfl)
  | isEmpty => exact .some (lift c.isEmpty_mirrors fun _ => rfl)
  | contains name => exact .some (lift (c.contains_mirrors name) fun _ => rfl)
  | get name => exact .some (lift (c.get_mirrors name) fun _ => rfl)
  | create name => exact .some (lift (c.create_mirrors name) fun _ => rfl)
  | setItem name state => exact .some (lift (c.setItem_mirrors name state) fun _ => rfl)
  | delete name => exact .some (lift (c.delete_mirrors name) fun _ => rfl)
  | setAttribute | getProperty | setProperty | lookup | child | collection | property
  | command | allowedValues | invoke => exact .none

theorem Leaf.perform_mirrored (l : Leaf) (operation : Operation) :
    (Node.leaf l).Mirrored ((Node.leaf l).perform remote operation)
      (Direct.perform remote (Node.leaf l).anonymous operation) := by
  cases operation with
  | self => exact .some (Node.leaf l).self_mirrors
  | path => exact .some (Node.leaf l).path_mirrors
  | owner => exact .some (Node.leaf l).takeOwner_mirrors
  | getState => exact .some (l.getState_mirrors.map fun _ => rfl)
  | setState state => exact .some ((l.setState_mirrors state).map fun _ => rfl)
  | allowedValues => exact .some (l.allowedValues_mirrors.map fun _ => rfl)
  | _ => exact .none

theorem Command.perform_mirrored (c : Command) (operation : Operation) :
    (Node.command c).Mirrored ((Node.command c).perform remote operation)
      (Direct.perform remote (Node.command c).anonymous operation) := by
  cases operation with
  | self => exact .some (Node.command c).self_mirrors
  | path => exact .some (Node.command c).path_mirrors
  | owner => exact .some (Node.command c).takeOwner_mirrors
  | invoke keywords => exact .some ((c.invoke_mirrors keywords).map fun _ => rfl)
  | _ => exact .none

/-- Every operation of an object that callers keep is the one of a client that remembers nothing. -/
theorem Node.perform_mirrored (n : Node) (operation : Operation) :
    n.Mirrored (n.perform remote operation) (Direct.perform remote n.anonymous operation) := by
  cases n with
  | container c => exact c.perform_mirrored operation
  | collection c => exact c.perform_mirrored operation
  | leaf l => exact l.perform_mirrored operation
  | command c => exact c.perform_mirrored operation

end SettingsTree
