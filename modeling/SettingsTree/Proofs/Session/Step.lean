import SettingsTree.Proofs.Pointwise
import SettingsTree.Proofs.Schema.Lookup
import SettingsTree.Proofs.Session.Registry
import SettingsTree.Session.Connect

/-! # One step of a path

A step leads from a container to something that the container declares, or to a member of one of its
collections. Where remote names tell the members of the container apart, each of them is what its
remote name leads to.
-/

namespace SettingsTree

/-! ### The names of members

What a container is made of has the names of what its descriptor declares, on either side.
-/

theorem map_name_zipIdx (name : Descriptor → String) (ds : List Descriptor) :
    (ds.zipIdx.map fun d => name d.1) = ds.map name := by
  rw [← Function.comp_def name Prod.fst, ← List.map_map, List.zipIdx_map_fst]

theorem names_sublist (name : Descriptor → String) {β : Type}
    (make : Nat → Descriptor → Option β) {descriptor : β → Descriptor}
    (h : ∀ position d b, make position d = some b → descriptor b = d) (ds : List Descriptor) :
    ((ds.zipIdx.filterMap fun d => make d.2 d.1).map fun b => name (descriptor b)).Sublist
      (ds.map name) := by
  rw [← map_name_zipIdx]
  exact filterMap_map_sublist (fun d b hb => congrArg name (h d.2 d.1 b hb)) ds.zipIdx

namespace Container

variable (c : Container) (name : Descriptor → String)

theorem names_children :
    (c.children.map fun n => name n.descriptor) = c.members.children.map name := by
  simp only [children, List.map_map, Function.comp_def, descriptor_childAt, map_name_zipIdx]

theorem names_leaves : (c.leaves.map fun l => name l.descriptor).Sublist
    (c.members.properties.map name) :=
  names_sublist name c.leafAt? (fun _ _ _ hl => (leafAt?_eq_some hl).2) _

theorem names_commands : (c.commands.map fun k => name k.descriptor).Sublist
    (c.members.commands.map name) :=
  names_sublist name c.commandAt? (fun _ _ _ hk => (commandAt?_eq_some hk).2) _

end Container

/-! ### Steps -/

namespace Session

variable {σ : Type}

theorem offers_of_childByRemote? {c : Container} {name : String} {n : Node}
    (h : childByRemote? c name = some n) : c.Offers n ∧ n.descriptor.remote = name :=
  ⟨.child (List.mem_of_find?_eq_some h), by simpa using List.find?_some h⟩

theorem offers_of_memberByRemote? {c : Container} {name : String} {n : Node}
    (h : memberByRemote? c name = some n) : c.Offers n ∧ n.descriptor.remote = name := by
  unfold memberByRemote? at h
  split at h
  · next l hl =>
    obtain rfl := Option.some.inj h
    have hname : l.label.remote = name := by simpa using List.find?_some hl
    exact ⟨.leaf (List.mem_of_find?_eq_some hl), hname⟩
  · obtain ⟨k, hk, rfl⟩ := Option.map_eq_some_iff.1 h
    have hname : k.label.remote = name := by simpa using List.find?_some hk
    exact ⟨.command (List.mem_of_find?_eq_some hk), hname⟩

/-- One step leads to a member of a collection of a container, or to something that a container
declares, or nowhere. -/
theorem follow_cases (remote : Remote σ) (path : String) (n : Node) (step : Step) :
    (∃ c d name, n = .container c ∧ c.Offers (.collection d) ∧ d.descriptor.remote = step.type ∧
        step.name = some name ∧
        follow remote path n step = Node.container <$> d.get remote name) ∨
      (∃ c m, n = .container c ∧ c.Offers m ∧ m.descriptor.remote = step.type ∧ step.name = none ∧
        follow remote path n step = pure m) ∨
      follow remote path n step = throw (.path (.noSuchComponent path step.render)) := by
  cases n with
  | container c =>
    unfold follow
    dsimp only
    split
    · next d name hchild hname =>
      obtain ⟨hoffers, hremote⟩ := offers_of_childByRemote? hchild
      exact Or.inl ⟨c, d, name, rfl, hoffers, hremote, hname, rfl⟩
    · exact Or.inr (Or.inr rfl)
    · next m hchild hname =>
      obtain ⟨hoffers, hremote⟩ := offers_of_childByRemote? hchild
      exact Or.inr (Or.inl ⟨c, m, rfl, hoffers, hremote, hname, rfl⟩)
    · exact Or.inr (Or.inr rfl)
    · next hchild hname =>
      split
      · next m hmember =>
        obtain ⟨hoffers, hremote⟩ := offers_of_memberByRemote? hmember
        exact Or.inr (Or.inl ⟨c, m, rfl, hoffers, hremote, hname, rfl⟩)
      · exact Or.inr (Or.inr rfl)
  | collection | leaf | command => exact Or.inr (Or.inr rfl)

/-! ### Steps back to where an object stands -/

section

variable {c : Container} {n : Node}

theorem childByRemote?_of_mem
    (distinct : (c.members.all.map fun m => m.descriptor.remote).Nodup) (h : n ∈ c.children) :
    childByRemote? c n.descriptor.remote = some n := by
  have hchildren := (Members.names_nodup distinct).2.1
  rw [← c.names_children Descriptor.remote] at hchildren
  exact (find?_name_eq_some_iff hchildren).2 ⟨h, rfl⟩

theorem childByRemote?_eq_none {name : String} (h : ∀ d ∈ c.members.children, d.remote ≠ name) :
    childByRemote? c name = none := by
  refine List.find?_eq_none.2 fun n hn => ?_
  obtain ⟨position, d, hd, rfl⟩ := Container.mem_children_iff.1 hn
  simpa using h d (List.mem_of_getElem? hd)

theorem memberByRemote?_leaf
    (distinct : (c.members.all.map fun m => m.descriptor.remote).Nodup) {l : Leaf}
    (h : l ∈ c.leaves) : memberByRemote? c l.label.remote = some (.leaf l) := by
  have hleaves := (Members.names_nodup distinct).1.sublist (c.names_leaves Descriptor.remote)
  have hfind : (c.leaves.find? fun l' => l'.label.remote = l.label.remote) = some l :=
    (find?_name_eq_some_iff hleaves).2 ⟨h, rfl⟩
  rw [memberByRemote?, hfind]

theorem memberByRemote?_command
    (distinct : (c.members.all.map fun m => m.descriptor.remote).Nodup) {k : Command}
    (h : k ∈ c.commands) : memberByRemote? c k.label.remote = some (.command k) := by
  obtain ⟨-, -, hcommands, -, hdiffer⟩ := Members.names_nodup distinct
  obtain ⟨position, d, hd, hk⟩ := Container.mem_commands_iff.1 h
  have hnone : (c.leaves.find? fun l => l.label.remote = k.label.remote) = none := by
    refine List.find?_eq_none.2 fun l hl => ?_
    obtain ⟨position', d', hd', hl⟩ := Container.mem_leaves_iff.1 hl
    obtain rfl := (Container.leafAt?_eq_some hl).2
    obtain rfl := (Container.commandAt?_eq_some hk).2
    rw [decide_eq_true_eq]
    exact (hdiffer k.descriptor (List.mem_of_getElem? hd)).1 _ (List.mem_of_getElem? hd')
  have hfind : (c.commands.find? fun k' => k'.label.remote = k.label.remote) = some k :=
    (find?_name_eq_some_iff (hcommands.sublist (c.names_commands Descriptor.remote))).2 ⟨h, rfl⟩
  rw [memberByRemote?, hnone, hfind]
  rfl

/-- The remote name of a declared object leads to it, where no two members share their name. -/
theorem follow_offered (remote : Remote σ) (path : String)
    (distinct : (c.members.all.map fun m => m.descriptor.remote).Nodup) (h : c.Offers n) :
    follow remote path (.container c) ⟨n.descriptor.remote, none⟩ = pure n := by
  obtain ⟨-, -, -, hleaf, hcommand⟩ := Members.names_nodup distinct
  cases h with
  | @leaf l hl =>
    obtain ⟨position, d, hd, hl'⟩ := Container.mem_leaves_iff.1 hl
    obtain rfl := (Container.leafAt?_eq_some hl').2
    have hnone : childByRemote? c l.label.remote = none :=
      childByRemote?_eq_none fun d' hd' heq => hleaf d' hd' _ (List.mem_of_getElem? hd) heq.symm
    have hremote : (Node.leaf l).descriptor.remote = l.label.remote := rfl
    simp only [follow, hremote, hnone, memberByRemote?_leaf distinct hl]
  | child hn =>
    simp only [follow, childByRemote?_of_mem distinct hn]
  | @command k hk =>
    obtain ⟨position, d, hd, hk'⟩ := Container.mem_commands_iff.1 hk
    obtain rfl := (Container.commandAt?_eq_some hk').2
    have hnone : childByRemote? c k.label.remote = none :=
      childByRemote?_eq_none fun d' hd' heq =>
        (hcommand _ (List.mem_of_getElem? hd)).2 d' hd' heq
    have hremote : (Node.command k).descriptor.remote = k.label.remote := rfl
    simp only [follow, hremote, hnone, memberByRemote?_command distinct hk]

/-- The remote name of a collection and the name of a member lead to this member, if the remote has
it. -/
theorem follow_collection (remote : Remote σ) (path : String) {d : Collection}
    (distinct : (c.members.all.map fun m => m.descriptor.remote).Nodup)
    (h : c.Offers (.collection d)) (name : String) :
    follow remote path (.container c) (.member d.descriptor.remote name) =
      Node.container <$> d.get remote name := by
  cases h with
  | child hn =>
    have hchild : childByRemote? c d.descriptor.remote = some (.collection d) :=
      childByRemote?_of_mem distinct hn
    simp only [follow, Step.member, hchild]
    rfl

end

end Session

end SettingsTree
