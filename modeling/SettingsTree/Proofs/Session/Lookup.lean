import SettingsTree.Proofs.Schema.WellFormed
import SettingsTree.Proofs.Session.Addressable
import SettingsTree.Proofs.Session.Invocation
import SettingsTree.Proofs.Session.Linked
import SettingsTree.Proofs.Session.Step

/-! # What a local name leads to

The tree of objects is made from the tree of descriptors, and is searched apart from it. In a
session over a compiled schema the two agree: a local name leads to an object just when it is
declared, the object is what the name is declared as, and it stands one step below its container.
To take an object by its name says nothing to the remote. To write to it says one thing, or nothing
if it is a command; for a collection, what is said is said of its members.
-/

namespace SettingsTree

open Client

/-! ### Kinds of objects and of faults -/

def Kind.wanted : Kind → Wanted
  | container => .container
  | collection => .collection
  | property => .property
  | command => .command

/-- The operation that takes an object of a kind by its local name. -/
def Kind.access : Kind → String → Operation
  | container => .child
  | collection => .collection
  | property => .property
  | command => .command

/-! ### Objects and declarations -/

/-- Whatever stands at a position of a compiled tree has well-formed members, if it has any. -/
theorem members_wellFormed_of_compile {raw : Json} {rootType : String} {options : Options}
    {schema : Compiled} (unique : raw.Unique)
    (compiled : compile raw rootType options = .ok schema) {d : Descriptor}
    (hd : schema.root.Reaches d) {members : Members} (h : d.members? = some members) :
    members.WellFormed := by
  cases d with
  | container =>
    cases h
    exact wellFormed_of_compile unique compiled hd
  | collection label template =>
    have hkind := (wellFormed_of_compile unique compiled hd).1
    cases template with
    | container =>
      cases h
      exact wellFormed_of_compile unique compiled (.template hd)
    | _ => simp [Descriptor.kind] at hkind
  | _ => cases h

namespace Container

variable {c : Container} {n : Node} {name : String}

/-- The containers in the tree of a session: what containers declare, and the members that their
collections have or could have, whether or not they are still in an index. -/
inductive Within (s : Session) : Container → Prop
  | root : Within s s.root
  | child {parent c : Container} (h : Within s parent) (offers : parent.Offers (.container c)) :
      Within s c
  | member {owner : Container} {d : Collection} (h : Within s owner)
      (offers : owner.Offers (.collection d)) (name : String) (serial : Nat) :
      Within s (d.member name serial)

theorem Within.reaches {s : Session} (h : c.Within s) : s.schema.root.Reaches c.descriptor := by
  induction h with
  | root => exact .root
  | child _ offers ih => exact offers.reaches ih
  | member _ offers => exact Descriptor.reaches_template (offers.reaches ‹_›)

theorem Within.wellFormed {s : Session} (h : c.Within s) {raw : Json} {rootType : String}
    {options : Options} (unique : raw.Unique)
    (compiled : compile raw rootType options = .ok s.schema) : c.members.WellFormed := by
  unfold members
  cases hmembers : c.descriptor.members? with
  | none =>
    have nothing : Siblings [] := ⟨List.nodup_nil, .nil⟩
    exact ⟨by simp, by simp, by simp, List.nodup_nil, nothing, nothing, nothing⟩
  | some members => exact members_wellFormed_of_compile unique compiled h.reaches hmembers

/-! ### The object under a name -/

theorem localName_of_lookup? (h : c.lookup? name = some n) : n.descriptor.localName = name := by
  unfold lookup? at h
  split at h
  · cases h
  · obtain ⟨l, hl, rfl⟩ := Option.map_eq_some_iff.1 h
    have hname : l.label.localName = name := by simpa using List.find?_some hl
    exact hname
  · simpa using List.find?_some h
  · obtain ⟨k, hk, rfl⟩ := Option.map_eq_some_iff.1 h
    have hname : k.label.localName = name := by simpa using List.find?_some hk
    exact hname

section

variable (locals : (c.members.all.map fun m => m.descriptor.localName).Nodup)

include locals

theorem Offers.lookup?_declared (h : c.Offers n) :
    c.members.lookup? n.descriptor.localName = some n.declared :=
  (Members.lookup?_eq_some_iff locals).2 ⟨h.declared_mem, by rw [n.descriptor_declared]⟩

/-- The search of the objects finds what the search of the declarations finds. -/
theorem Offers.lookup?_eq (h : c.Offers n) : c.lookup? n.descriptor.localName = some n := by
  have hdeclared := h.lookup?_declared locals
  obtain ⟨hproperties, hchildren, hcommands, -⟩ := Members.names_nodup locals
  rw [← c.names_children Descriptor.localName] at hchildren
  rw [lookup?, hdeclared]
  cases h with
  | leaf hl =>
    have hlocals := hproperties.sublist (c.names_leaves Descriptor.localName)
    exact congrArg (Option.map Node.leaf) ((find?_name_eq_some_iff hlocals).2 ⟨hl, rfl⟩)
  | child hn =>
    have hfind := (find?_name_eq_some_iff hchildren).2 ⟨hn, rfl⟩
    obtain ⟨position, d, -, rfl⟩ := mem_children_iff.1 hn
    rw [declared_childAt]
    exact hfind
  | command hk =>
    have hlocals := hcommands.sublist (c.names_commands Descriptor.localName)
    exact congrArg (Option.map Node.command) ((find?_name_eq_some_iff hlocals).2 ⟨hk, rfl⟩)

/-- A local name leads to the very object that has it. -/
theorem lookup?_eq_some_iff :
    c.lookup? name = some n ↔ c.Offers n ∧ n.descriptor.localName = name := by
  constructor
  · exact fun h => ⟨offers_of_lookup? h, localName_of_lookup? h⟩
  · rintro ⟨offers, rfl⟩
    exact offers.lookup?_eq locals

end

section

variable (well : c.members.WellFormed)

include well

theorem exists_offered {m : Member} (h : m ∈ c.members.all) :
    ∃ n, c.Offers n ∧ n.descriptor = m.descriptor := by
  simp only [Members.all, List.mem_append, List.mem_map] at h
  rcases h with (⟨d, hd, rfl⟩ | ⟨d, hd, rfl⟩) | ⟨d, hd, rfl⟩
  · obtain ⟨position, hposition⟩ := List.mem_iff_getElem?.1 hd
    cases d with
    | leaf label primitive =>
      exact ⟨_, .leaf (mem_leaves_iff.2 ⟨position, _, hposition, rfl⟩), rfl⟩
    | _ => exact absurd (well.properties _ hd) (by simp [Descriptor.kind])
  · obtain ⟨position, hposition⟩ := List.mem_iff_getElem?.1 hd
    exact ⟨_, .child (mem_children_iff.2 ⟨position, d, hposition, rfl⟩), descriptor_childAt _ _ _⟩
  · obtain ⟨position, hposition⟩ := List.mem_iff_getElem?.1 hd
    cases d with
    | command =>
      exact ⟨_, .command (mem_commands_iff.2 ⟨position, _, hposition, rfl⟩), rfl⟩
    | _ => exact absurd (well.commands _ hd) (by simp [Descriptor.kind])

theorem Offers.kind_eq (h : c.Offers n) : n.kind = n.descriptor.kind := by
  cases h with
  | leaf | command => rfl
  | child hn =>
    obtain ⟨position, d, hd, rfl⟩ := mem_children_iff.1 hn
    have hkind := well.children d (List.mem_of_getElem? hd)
    cases d with
    | container | collection => rfl
    | _ => simp [Descriptor.kind] at hkind

end

theorem Offers.attached {memory : Memory} (h : c.Offers n) (alive : memory.alive c.address)
    (attached : c.Attached memory) : n.Attached memory := by
  cases h with
  | leaf hl =>
    obtain ⟨position, d, -, hleaf⟩ := mem_leaves_iff.1 hl
    obtain ⟨rfl, -⟩ := leafAt?_eq_some hleaf
    exact ⟨alive, attached⟩
  | child hn =>
    obtain ⟨position, d, -, rfl⟩ := mem_children_iff.1 hn
    cases d <;> exact ⟨alive, attached⟩
  | command hk =>
    obtain ⟨position, d, -, hcommand⟩ := mem_commands_iff.1 hk
    obtain ⟨rfl, -⟩ := commandAt?_eq_some hcommand
    exact ⟨alive, attached⟩

theorem Offers.path_eq {memory : Memory} {path : String} (h : c.Offers n)
    (alive : memory.alive c.address) (located : c.path memory = .ok path) :
    n.path memory = .ok (path ++ "/" ++ n.descriptor.remote) := by
  obtain ⟨attached, rfl⟩ := path_eq_ok_iff.1 located
  refine Node.path_eq_ok_iff.2 ⟨h.attached alive attached, ?_⟩
  rw [Node.place, h.steps, Path.render_concat]
  rfl

end Container

/-! ### What is said -/

section

variable {σ : Type} (remote : Remote σ)

/-- One call is made, and what comes of it is what is answered. -/
structure World.Asks (w : World (List Exchange × σ)) (call : Call)
    (run : Except ClientError call.Answer × World (List Exchange × σ)) : Prop where
  said : w.Said [remote.exchange call w.remote.2] run.2
  memory : run.2.memory = w.memory
  result : run.1 = (remote.call call w.remote.2).1.mapError .transport

theorem World.asks_ask (call : Call) (w : World (List Exchange × σ)) :
    w.Asks remote call (ask remote.traced call w) where
  said := said_ask remote call w
  memory := by rw [ask_run]
  result := by rw [ask_run]; rfl

namespace Container

variable {c : Container} {w : World (List Exchange × σ)} {path name : String} {n : Node}

/-- A container has an operation, which gives this and does nothing else. -/
def Gives (c : Container) (w : World (List Exchange × σ)) (operation : Operation)
    (result : Except ClientError (Reply Node)) : Prop :=
  ∃ act, c.perform remote.traced operation = some act ∧ act w = (result, w)

/-- What comes of a local name that leads to an object, for a container with a path. -/
structure Finds (c : Container) (w : World (List Exchange × σ)) (path name : String) (n : Node) :
    Prop where
  /-- The object is what the descriptor of the container declares under the name. -/
  declared : c.members.lookup? name = some n.declared
  descriptor : n.declared.descriptor = n.descriptor
  kind : n.kind = n.descriptor.kind
  located : n.path w.memory = .ok (path ++ "/" ++ n.descriptor.remote)
  lookup : c.Gives remote w (.lookup name) (.ok (.object n))
  /-- The object is given to whoever wants one of its kind. -/
  access : ∀ kind : Kind, c.Gives remote w (kind.access name)
    (if n.kind = kind then .ok (.object n)
      else .error (.path (.kindMismatch path name kind.wanted)))
  setProperty : n.kind = .property → ∀ value,
    w.Asks remote (.setState (path ++ "/" ++ n.descriptor.remote) value)
      (c.setAttribute remote.traced name value w)
  setChild : n.kind = .container → ∀ value,
    w.Asks remote (.setState (path ++ "/" ++ n.descriptor.remote)
      (Projection.toRemote n.descriptor value)) (c.setAttribute remote.traced name value w)
  setCollection : ∀ d, n = .collection d → ∀ value,
    c.setAttribute remote.traced name value w = d.setState remote.traced value w
  setCommand : n.kind = .command → ∀ value, c.setAttribute remote.traced name value w =
    (.error (.path (.kindMismatch path name .propertyOrChild)), w)

/-- What comes of a local name that leads nowhere, for a container with a path. -/
structure Misses (c : Container) (w : World (List Exchange × σ)) (path name : String) : Prop where
  lookup : c.Gives remote w (.lookup name) (.ok .nothing)
  access : ∀ kind : Kind, c.Gives remote w (kind.access name)
    (.error (.path (.unknownMember path name)))
  set : ∀ value, c.setAttribute remote.traced name value w =
    (.error (.path (.unknownMember path name)), w)

section

variable (located : c.path w.memory = .ok path)

include located

theorem unknown_eq {α : Type} (name : String) :
    (c.unknown w.memory name : Except ClientError α) =
      .error (.path (.unknownMember path name)) := by
  rw [unknown, located]
  rfl

theorem mismatch_eq {α : Type} (name : String) (wanted : Wanted) :
    (c.mismatch w.memory name wanted : Except ClientError α) =
      .error (.path (.kindMismatch path name wanted)) := by
  rw [mismatch, located]
  rfl

theorem gives_access (name : String) (kind : Kind) :
    c.Gives remote w (kind.access name) (match c.lookup? name with
      | none => .error (.path (.unknownMember path name))
      | some n =>
        if n.kind = kind then .ok (.object n)
        else .error (.path (.kindMismatch path name kind.wanted))) := by
  cases kind <;> refine ⟨_, rfl, Prod.ext ?_ rfl⟩
  all_goals
    simp only [consult_run, childNamed, collectionNamed, propertyNamed, commandNamed, pick,
      unknown_eq located, mismatch_eq located]
    cases c.lookup? name with
    | none => rfl
    | some n => cases n <;> rfl

/-- A container whose members are well-formed finds what it looks up. -/
theorem finds_of_lookup? (well : c.members.WellFormed) (alive : w.memory.alive c.address)
    (h : c.lookup? name = some n) : c.Finds remote w path name n := by
  have offers := offers_of_lookup? h
  have place := offers.path_eq alive located
  constructor
  case declared =>
    obtain rfl := localName_of_lookup? h
    exact offers.lookup?_declared well.locals
  case descriptor => exact n.descriptor_declared
  case kind => exact offers.kind_eq well
  case located => exact place
  case lookup => exact ⟨_, rfl, by rw [h]; rfl⟩
  case access => simpa only [h] using gives_access remote located name
  case setProperty =>
    intro hkind value
    cases n with
    | leaf l =>
      have hrun : c.setAttribute remote.traced name value w = ask remote.traced
          (.setState (path ++ "/" ++ (Node.leaf l).descriptor.remote) value) w := by
        rw [setAttribute, h]
        exact consult_bind_ok place
      exact hrun ▸ World.asks_ask remote _ w
    | _ => cases hkind
  case setChild =>
    intro hkind value
    cases n with
    | container d =>
      have hrun : c.setAttribute remote.traced name value w = ask remote.traced
          (.setState (path ++ "/" ++ d.descriptor.remote)
            (Projection.toRemote d.descriptor value)) w := by
        rw [setAttribute, h]
        exact consult_bind_ok place
      exact hrun ▸ World.asks_ask remote _ w
    | _ => cases hkind
  case setCollection =>
    rintro d rfl value
    rw [setAttribute, h]
  case setCommand =>
    intro hkind value
    cases n with
    | command k =>
      rw [setAttribute, h]
      exact Prod.ext (mismatch_eq located name _) rfl
    | _ => cases hkind

theorem misses_of_lookup? (h : c.lookup? name = none) : c.Misses remote w path name where
  lookup := ⟨_, rfl, by rw [h]; rfl⟩
  access := by simpa only [h] using gives_access remote located name
  set value := by
    rw [setAttribute, h]
    exact Prod.ext (unknown_eq located name) rfl

end

/-- In a session over a compiled schema, a local name leads to an object of an attached container
just when the container declares it. The object is what is declared and stands one step below the
container; exactly the operation for its kind gives it, and the other ones refuse it. To write to it
takes one call if it is a property or a fixed child, and none if it is a command. A name that is not
declared is refused by all of them. But for writing, nothing is said to the remote. -/
theorem lookup_by_local_name {raw : Json} {rootType : String} {options : Options} {s : Session}
    (unique : raw.Unique) (compiled : compile raw rootType options = .ok s.schema)
    (within : c.Within s) (alive : w.memory.alive c.address)
    (located : c.path w.memory = .ok path) (name : String) :
    ((∃ n, c.lookup? name = some n) ↔ ∃ m ∈ c.members.all, m.descriptor.localName = name) ∧
      (∀ n, c.lookup? name = some n → c.Finds remote w path name n) ∧
      ((∀ m ∈ c.members.all, m.descriptor.localName ≠ name) → c.Misses remote w path name) := by
  have well := within.wellFormed unique compiled
  have hfound : (∃ n, c.lookup? name = some n) ↔
      ∃ m ∈ c.members.all, m.descriptor.localName = name := by
    constructor
    · rintro ⟨n, h⟩
      obtain ⟨m, hm, hdescriptor⟩ := (offers_of_lookup? h).member
      exact ⟨m, hm, hdescriptor ▸ localName_of_lookup? h⟩
    · rintro ⟨m, hm, rfl⟩
      obtain ⟨n, offers, hdescriptor⟩ := exists_offered well hm
      exact ⟨n, (lookup?_eq_some_iff well.locals).2 ⟨offers, by rw [hdescriptor]⟩⟩
  refine ⟨hfound, fun n h => finds_of_lookup? remote located well alive h, fun undeclared => ?_⟩
  apply misses_of_lookup? remote located
  rw [Option.eq_none_iff_forall_ne_some]
  intro n h
  obtain ⟨m, hm, hname⟩ := hfound.1 ⟨n, h⟩
  exact undeclared m hm hname

end Container

end

/-! ### A member that is deleted and still kept -/

namespace Crowded

def session : Session := ⟨⟨schema, .compiled⟩, 0⟩

def regions : Collection :=
  ⟨.root 0 root, 1,
    .collection region (.container region [.leaf ⟨"Topology", "topology", 0⟩ .string] [] [])⟩

/-- The only region that was created. -/
def deleted : Container := regions.member "R1" 1

def setting : Leaf := ⟨deleted, 0, ⟨"Topology", "topology", 0⟩, .string⟩

/-- The world in which a region was created and kept, and then deleted. -/
def after : World (List Exchange × Unit) :=
  (Action.performAll remote.traced [.adopt "s" schema,
    .apply "s" (.collection "region") (some "regions"),
    .apply "regions" (.create "R1") (some "kept"),
    .apply "regions" (.delete "R1") none] { remote := ([], ()) }).2

theorem within : deleted.Within session :=
  .member .root (.child (Container.mem_children_iff.2 ⟨1, _, rfl, rfl⟩)) "R1" 1

end Crowded

/-- What is declared is found below a member that is no longer in its collection. -/
theorem Crowded.looked_up :
    Crowded.raw.Unique ∧ compile Crowded.raw "Root" {} = .ok Crowded.session.schema ∧
      Crowded.deleted.Within Crowded.session ∧
      Crowded.after.memory.alive Crowded.deleted.address ∧
      Crowded.deleted.path Crowded.after.memory = .ok "/Root/Region:R1" ∧
      (∃ n, Crowded.deleted.lookup? "topology" = some n ∧
        n.path Crowded.after.memory = .ok "/Root/Region:R1/Topology") ∧
      Crowded.after.Said [⟨.setState "/Root/Region:R1/Topology" (.str "Solid"), .ok ()⟩]
        (Crowded.deleted.setAttribute Crowded.remote.traced "topology" (.str "Solid")
          Crowded.after).2 ∧
      Crowded.deleted.Gives Crowded.remote Crowded.after (.command "topology")
        (.error (.path (.kindMismatch "/Root/Region:R1" "topology" .command))) ∧
      Crowded.deleted.Gives Crowded.remote Crowded.after (.property "Topology")
        (.error (.path (.unknownMember "/Root/Region:R1" "Topology"))) := by
  have alive : Crowded.after.memory.alive Crowded.deleted.address := by decide +kernel
  have located : Crowded.deleted.path Crowded.after.memory = .ok "/Root/Region:R1" := by
    decide +kernel
  have compiled : compile Crowded.raw "Root" {} = .ok Crowded.session.schema := Crowded.compiled
  have looked (name : String) := Container.lookup_by_local_name Crowded.remote Crowded.unique
    compiled Crowded.within alive located name
  have offers : Crowded.deleted.Offers (.leaf Crowded.setting) := .leaf (List.mem_singleton.2 rfl)
  have hlookup : Crowded.deleted.lookup? "topology" = some (.leaf Crowded.setting) :=
    offers.lookup?_eq (by decide +kernel)
  have finds := (looked "topology").2.1 _ hlookup
  have misses := (looked "Topology").2.2 (by decide +kernel)
  exact ⟨Crowded.unique, compiled, Crowded.within, alive, located,
    ⟨_, hlookup, finds.located⟩, (finds.setProperty rfl (.str "Solid")).said,
    finds.access .command, misses.access .property⟩

end SettingsTree
