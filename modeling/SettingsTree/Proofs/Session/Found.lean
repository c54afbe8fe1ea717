import SettingsTree.Proofs.Schema.Find
import SettingsTree.Proofs.Session.Addressable
import SettingsTree.Proofs.Session.Resolve

/-! # What a path leads to in a session and in its schema

A session looks for a child before a setting before a command, and needs a member to go on from a
collection. A schema looks for a property before a child before a command, and goes on from a
collection by itself. Where the members of every container have different remote names, the two keep
in step: whatever object a path leads to, its description is found at the path.
-/

namespace SettingsTree

open Client

/-- The members of each position of a tree have different remote names. -/
def Descriptor.Unambiguous (tree : Descriptor) : Prop :=
  ∀ d, tree.Reaches d → ∀ members, d.members? = some members →
    (members.all.map fun m => m.descriptor.remote).Nodup

theorem Descriptor.Addressable.unambiguous {tree : Descriptor} (addressable : tree.Addressable) :
    tree.Unambiguous := fun d hd members h => (addressable.members d hd members h).2

/-- A position describes the object that a step leads to: it is the descriptor of the object, or of
the collection, if the step is one to a member. -/
def Descriptor.Shows (d : Descriptor) (step : Step) (n : Node) : Prop :=
  match step.name with
  | none => n.descriptor = d
  | some _ => d.template? = some n.descriptor

theorem Descriptor.Shows.reaches {tree d : Descriptor} {step : Step} {n : Node}
    (h : d.Shows step n) (hd : tree.Reaches d) : tree.Reaches n.descriptor := by
  unfold Shows at h
  split at h
  · exact h ▸ hd
  · have htemplate := reaches_template hd
    rwa [h] at htemplate

theorem Descriptor.Shows.descend? {d : Descriptor} {step : Step} {n : Node} (h : d.Shows step n)
    (name : String) : d.descend? name = n.descriptor.descend? name := by
  unfold Shows at h
  split at h
  · rw [h]
  · cases d with
    | collection label template =>
      rw [← Option.some.inj h]
      rfl
    | container | leaf | command => cases h

namespace Container.Offers

variable {c : Container} {n : Node}

/-- The remote name of a declared object leads from the descriptor of its owner to its own. -/
theorem descend? {tree : Descriptor} (h : c.Offers n) (unambiguous : tree.Unambiguous)
    (hc : tree.Reaches c.descriptor) :
    c.descriptor.descend? n.descriptor.remote = some n.descriptor := by
  obtain ⟨m, hm, hdescriptor⟩ := h.member
  unfold members at hm
  cases hmembers : c.descriptor.members? with
  | none => simp [hmembers, Members.all] at hm
  | some members =>
    rw [hmembers] at hm
    rw [← hdescriptor]
    exact Descriptor.descend?_of_mem hmembers (unambiguous _ hc _ hmembers) hm

theorem template_of_collection {d : Collection} (h : c.Offers (.collection d)) :
    ∃ template, d.descriptor.template? = some template := by
  cases h with
  | child hn =>
    obtain ⟨position, e, -, heq⟩ := mem_children_iff.1 hn
    cases e with
    | collection label template =>
      cases heq
      exact ⟨template, rfl⟩
    | container | leaf | command => cases heq

end Container.Offers

namespace Session

variable {σ : Type} {remote : Remote σ} {reg : Registry} {tree d : Descriptor} {v v' : World σ}
  {n m : Node} {last step : Step} {path : String}

/-- One step in a session is one step in the schema. -/
theorem follow_shows (unambiguous : tree.Unambiguous) (hd : tree.Reaches d)
    (sound : v.memory.Sound reg) (fits : n.Fits reg v.memory.fresh) (described : d.Shows last n)
    (h : follow remote path n step v = (.ok m, v')) :
    ∃ e, d.descend? step.type = some e ∧ tree.Reaches e ∧ e.Shows step m := by
  have hn := described.reaches hd
  rw [described.descend?]
  rcases follow_cases remote path n step with
    ⟨c, e, name, rfl, hoffers, hremote, hname, heq⟩ |
    ⟨c, m', rfl, hoffers, hremote, hname, heq⟩ | heq
  · have hcollection : (Node.collection e).descriptor.remote = step.type := hremote
    rw [← hcollection]
    -- the schema stops at the collection, whose template describes the member
    refine ⟨_, hoffers.descend? unambiguous hn, hoffers.reaches hn, ?_⟩
    rw [heq, map_run, Prod.mk.injEq] at h
    obtain ⟨member, hmember, rfl⟩ := map_eq_ok_iff.1 h.1
    have he : e.Fits reg v.memory.fresh := Container.Fits.offers fits hoffers
    obtain ⟨⟨serial, rfl⟩, -⟩ := Collection.member_of_get sound he (Prod.ext hmember rfl)
    obtain ⟨template, htemplate⟩ := hoffers.template_of_collection
    rw [Descriptor.Shows, hname]
    change e.descriptor.template? = some (e.descriptor.template?.getD e.descriptor)
    rw [htemplate, Option.getD_some]
  · rw [heq, pure_run, Prod.mk.injEq, Except.ok.injEq] at h
    obtain ⟨rfl, -⟩ := h
    rw [← hremote]
    refine ⟨_, hoffers.descend? unambiguous hn, hoffers.reaches hn, ?_⟩
    rw [Descriptor.Shows, hname]
  · rw [heq, throw_run] at h
    cases h

theorem foldlM_follow_shows {steps : Path} (unambiguous : tree.Unambiguous)
    (sound : v.memory.Sound reg) (fits : n.Fits reg v.memory.fresh) (described : tree.Shows last n)
    (h : steps.foldlM (follow remote path) n v = (.ok m, v')) :
    ∃ e, tree.walk? (steps.map Step.type) = some e ∧ tree.Reaches e ∧
      e.Shows (steps.getLastD last) m := by
  refine foldlM_follow_keeps (motive := fun front m _ => ∃ e,
      tree.walk? (front.map Step.type) = some e ∧ tree.Reaches e ∧ e.Shows (front.getLastD last) m)
    (fun sound fits ⟨d, hwalk, hd, described⟩ hstep => ?_) [] sound fits
    ⟨tree, rfl, .root, described⟩ h
  obtain ⟨e, hdescend, he, hshows⟩ := follow_shows unambiguous hd sound fits described hstep
  refine ⟨e, ?_, he, by simpa [List.getLastD_eq_getLast?] using hshows⟩
  simp [Descriptor.walk?_append, Descriptor.walk?_cons, hwalk, hdescend]

end Session

/-- For every session that is kept in a world that callers can reach, over a schema in which the
members of each position have different remote names: when a path leads to an object, a position is
found at the path, and it describes the object. And in every schema, the same is found at a path and
at its type path. -/
theorem find_of_resolve {σ : Type} (remote : Remote σ) :
    (∀ w : World σ, w.Reachable remote → ∀ key s, Keyed.get? key w.memory.sessions = some s →
      s.schema.root.Unambiguous → ∀ path n w', s.resolve remote path w = (.ok n, w') →
        ∃ step d, Path.last? path = some step ∧ s.schema.find path = .ok d ∧ d.Shows step n) ∧
      ∀ (schema : Compiled) path d,
        schema.find path = .ok d ↔ schema.find (Path.typePath path) = .ok d := by
  refine ⟨fun w reachable key s kept unambiguous path n w' h => ?_, fun schema path d =>
    Compiled.find_typePath_eq_ok_iff.symm⟩
  obtain ⟨reg, sound⟩ := reachable.sound
  have fits : (Node.container s.root).Fits reg w.memory.fresh :=
    sound.sessions key s (Keyed.mem_of_get? kept)
  rcases Session.resolve_cases remote s path with ⟨rest, -, hparse, heq⟩ | ⟨fault, heq⟩
  · rw [heq] at h
    have hroot : s.schema.root.Shows ⟨s.schema.root.remote, none⟩ (.container s.root) := rfl
    obtain ⟨d, hwalk, -, described⟩ :=
      Session.foldlM_follow_shows unambiguous sound fits hroot h
    refine ⟨_, d, ?_, Compiled.find_eq_ok_iff.2 ⟨_, ?_, hwalk⟩, described⟩
    · rw [Path.last?, hparse, List.getLast?_cons, List.getLastD_eq_getLast?]
    · rw [Path.types, hparse]
      rfl
  · rw [heq, throw_run] at h
    cases h

/-- A path leads to a member of the collection, whose template is found there. -/
theorem find_of_resolve_shelf :
    Shelf.world.Reachable Shelf.remote ∧
      Keyed.get? "s" Shelf.world.memory.sessions = some Shelf.session ∧
      Shelf.session.schema.root.Unambiguous ∧
      (Shelf.session.resolve Shelf.remote "/Root/Items:a:b" Shelf.world).1 =
        .ok (.container Shelf.member) ∧
      ∃ d, Shelf.schema.find "/Root/Items:a:b" = .ok d ∧ d.template? = some Shelf.template := by
  have reachable : Shelf.world.Reachable Shelf.remote := ⟨(), _, rfl⟩
  have kept : Keyed.get? "s" Shelf.world.memory.sessions = some Shelf.session := rfl
  have hparse : Path.parse "/Root/Items:a:b" =
      ⟨Shelf.session.schema.root.remote, none⟩ :: [.member "Items" "a:b"] := by decide +kernel
  have hfollow := Session.resolve_eq_foldlM Shelf.remote (by decide +kernel) hparse
  have resolved : (Shelf.session.resolve Shelf.remote "/Root/Items:a:b" Shelf.world).1 =
      .ok (.container Shelf.member) := by
    rw [hfollow]
    rfl
  have hrun : Shelf.session.resolve Shelf.remote "/Root/Items:a:b" Shelf.world =
      (.ok (.container Shelf.member),
        (Shelf.session.resolve Shelf.remote "/Root/Items:a:b" Shelf.world).2) :=
    Prod.ext resolved rfl
  obtain ⟨step, d, hlast, hfind, described⟩ := (find_of_resolve Shelf.remote).1 _ reachable _ _ kept
    Shelf.addressable.unambiguous _ _ _ hrun
  rw [Path.last?, hparse] at hlast
  obtain rfl := Option.some.inj hlast
  have shown : d.template? = some Shelf.template := described
  exact ⟨reachable, kept, Shelf.addressable.unambiguous, resolved, d, hfind, shown⟩

end SettingsTree
