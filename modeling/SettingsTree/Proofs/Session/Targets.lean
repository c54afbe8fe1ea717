import SettingsTree.Proofs.Path.Parsed
import SettingsTree.Proofs.Schema.Tree
import SettingsTree.Proofs.Session.Reachable
import SettingsTree.Proofs.Session.Trace

/-! # The objects that a collection deletes and writes

The name of a member is written into a path as it is. Where the name has no slash, the path is read
as that of the member. A member is created under no other name, but any name can be deleted, and the
path of a deletion may then be that of an object below another member.
-/

namespace SettingsTree

open Client

/-- The path of the object that a call deletes or writes. -/
def Call.target? : Call → Option String
  | .delete path => some path
  | .setState path _ => some path
  | _ => none

section

variable {σ : Type} (remote : Remote σ)

/-! ### What is said -/

namespace Container

theorem setState_said (c : Container) (state : Json) (w : World (List Exchange × σ)) :
    ∃ said, w.Said said (c.setState remote.traced state w).2 ∧
      ∀ e ∈ said, ∀ path, e.call.target? = some path → path = c.place := by
  unfold setState
  cases hpath : c.path w.memory with
  | error fault =>
    rw [consult_bind_error hpath]
    exact ⟨[], .refl w, by simp⟩
  | ok path =>
    rw [consult_bind_ok hpath]
    refine ⟨_, World.said_ask remote _ w, fun e he target htarget => ?_⟩
    rw [List.mem_singleton.1 he] at htarget
    rw [← Option.some.inj htarget, (path_eq_ok_iff.1 hpath).2]

theorem exists_toList_place (c : Container) : ∃ rest, c.place.toList = '/' :: rest := by
  have hne : c.steps ≠ [] := by cases c <;> simp [steps]
  obtain ⟨step, rest, hsteps⟩ := List.exists_cons_of_ne_nil hne
  rw [place, hsteps, Path.toList_render]
  exact ⟨_, rfl⟩

end Container

namespace Collection

variable (c : Collection) (name : String) (w : World (List Exchange × σ))

theorem contains_said : ∃ said, w.Said said (c.contains remote.traced name w).2 ∧
    (∀ e ∈ said, e.call.target? = none) ∧
    ((c.contains remote.traced name w).1 = .ok true → ∃ e ∈ said, c.Lists name e) := by
  cases hpath : c.path w.memory with
  | error fault =>
    rw [contains_run_error hpath]
    exact ⟨[], .refl w, by simp, by simp⟩
  | ok path =>
    obtain rfl := (path_eq_ok_iff.1 hpath).2
    rw [contains_run hpath]
    refine ⟨[remote.exchange (.memberNames c.place) w.remote.2], rfl,
      by simp [Remote.exchange, Call.target?], ?_⟩
    cases hanswer : (remote.call (.memberNames c.place) w.remote.2).1 with
    | error fault => simp [Remote.traced, hanswer, Except.map, Except.mapError]
    | ok names =>
      simp only [Remote.traced, hanswer, Except.map, Except.mapError, Except.ok.injEq]
      refine fun hlisted => ⟨_, List.mem_cons_self, names, ?_, ?_⟩
      · rw [Remote.exchange, hanswer]
      · exact List.contains_iff_mem.1 hlisted

/-- Creating a member that is not in the index says nothing but that, and gives a new member whose
name has no slash. -/
theorem create_said (hunknown : Keyed.get? name (c.known w.memory) = none) :
    ∃ said, w.Said said (c.create remote.traced name w).2 ∧
      (∀ e ∈ said, e.call.target? = none) ∧
      ∀ member, (c.create remote.traced name w).1 = .ok member →
        '/' ∉ name.toList ∧ member.place = c.memberPlace name := by
  cases hcheck : Path.checkObjectName name with
  | error fault =>
    rw [create, hcheck]
    exact ⟨[], .refl w, by simp, by simp⟩
  | ok done =>
    cases hpath : c.path w.memory with
    | error fault =>
      rw [create, hcheck]
      dsimp only
      rw [consult_bind_error hpath]
      exact ⟨[], .refl w, by simp, by simp⟩
    | ok path =>
      rw [create_run hcheck hpath]
      refine ⟨[remote.exchange (.create path name) w.remote.2], rfl,
        by simp [Remote.exchange, Call.target?], fun member hmember => ?_⟩
      obtain ⟨_, -, rfl⟩ := map_eq_ok_iff.1 hmember
      rw [(enter_of_unknown hunknown).2.1]
      exact ⟨(checkObjectName_eq_ok_iff.1 hcheck).2, rfl⟩

theorem parse_memberPlace_iff (unbroken : Unbroken c.descriptor.remote) :
    Path.parse (c.memberPlace name) =
        Path.parse c.owner.place ++ [.member c.descriptor.remote name] ↔
      '/' ∉ name.toList := by
  obtain ⟨rest, hrest⟩ := c.owner.exists_toList_place
  rw [memberPlace, ← Path.join_render, ← Container.place,
    Path.parse_join_eq_iff hrest unbroken.plain, Step.slash_not_mem_chars_iff]
  simp [Step.member, unbroken.slash]

/-- What is created and then written is the member. -/
theorem created_said (unbroken : Unbroken c.descriptor.remote)
    (hunknown : Keyed.get? name (c.known w.memory) = none) (state : Json) :
    ∃ said, w.Said said ((c.create remote.traced name >>= fun member =>
        member.setState remote.traced state) w).2 ∧
      ∀ e ∈ said, ∀ path, e.call.target? = some path →
        Path.parse path = Path.parse c.owner.place ++ [.member c.descriptor.remote name] := by
  obtain ⟨made, hmade, hquiet, hplace⟩ := c.create_said remote name w hunknown
  rcases hcreate : c.create remote.traced name w with ⟨fault | member, v⟩ <;>
    rw [hcreate] at hmade hplace
  · rw [bind_run_error hcreate]
    exact ⟨made, hmade, fun e he path htarget => by simp [hquiet e he] at htarget⟩
  · rw [bind_run_ok hcreate]
    obtain ⟨hslash, hmember⟩ := hplace member rfl
    obtain ⟨written, hwritten, htargets⟩ := member.setState_said remote state v
    refine ⟨made ++ written, hmade.trans hwritten, fun e he path htarget => ?_⟩
    rcases List.mem_append.1 he with he | he
    · simp [hquiet e he] at htarget
    · rw [htargets e he path htarget, hmember]
      exact (c.parse_memberPlace_iff name unbroken).2 hslash

/-- Unless the remote listed a member of this name, what is deleted or written is the member: its
path is read as that of the owner and one step to the member. -/
def Aims (owner : String) (said : List Exchange) : Prop :=
  (∀ e ∈ said, ¬ c.Lists name e) → ∀ e ∈ said, ∀ path, e.call.target? = some path →
    Path.parse path = Path.parse owner ++ [.member c.descriptor.remote name]

/-- A member that the remote does not list is created before it is written. -/
theorem setItem_said (unbroken : Unbroken c.descriptor.remote) (state : Json) :
    ∃ said, w.Said said (c.setItem remote.traced name state w).2 ∧
      c.Aims name c.owner.place said := by
  obtain ⟨asked, hasked, hquiet, hlisted⟩ := c.contains_said remote name w
  unfold setItem
  rcases hcontains : c.contains remote.traced name w with ⟨fault | found, v⟩ <;>
    rw [hcontains] at hasked hlisted
  · rw [bind_run_error hcontains]
    exact ⟨asked, hasked, fun _ e he path htarget => by simp [hquiet e he] at htarget⟩
  · rw [bind_run_ok hcontains]
    cases found with
    | true =>
      rw [if_pos rfl, bind_run_ok (cached_run c name v)]
      obtain ⟨written, hwritten, -⟩ := (c.memberFor name v.memory).setState_said remote state
        { v with memory := c.enter name v.memory }
      -- the remote listed the name, so it does not matter where this leads
      obtain ⟨e, he, hlists⟩ := hlisted rfl
      exact ⟨asked ++ written, hasked.trans hwritten, fun hnone =>
        absurd hlists (hnone e (List.mem_append_left _ he))⟩
    | false =>
      rw [if_neg Bool.false_ne_true]
      obtain ⟨created, hcreated, htargets⟩ :=
        c.created_said remote name v unbroken (unknown_of_contains hcontains) state
      refine ⟨asked ++ created, hasked.trans hcreated, fun _ e he path htarget => ?_⟩
      rcases List.mem_append.1 he with he | he
      · simp [hquiet e he] at htarget
      · exact htargets e he path htarget

/-- Members are written one after the other, until one cannot be written. What is said is divided
into what is said of each. -/
theorem setState_said (unbroken : Unbroken c.descriptor.remote) (members : Keyed Json) :
    ∃ parts done, done <+: members ∧
      List.Forall₂ (fun part entry => c.Aims entry.1 c.owner.place part) parts done ∧
      w.Said parts.flatten (c.setState remote.traced (.obj members) w).2 := by
  change ∃ (parts : List (List Exchange)) (done : Keyed Json), done <+: members ∧ _ ∧
    w.Said parts.flatten (members.forM (fun entry => c.setItem remote.traced entry.1 entry.2) w).2
  induction members generalizing w with
  | nil => exact ⟨[], [], List.prefix_refl _, .nil, .refl w⟩
  | cons entry rest ih =>
    obtain ⟨part, hpart, haims⟩ := c.setItem_said remote entry.1 w unbroken entry.2
    rw [List.forM]
    rcases hrun : c.setItem remote.traced entry.1 entry.2 w with ⟨fault | done, v⟩ <;>
      rw [hrun] at hpart
    · rw [bind_run_error hrun]
      exact ⟨[part], [entry], List.prefix_append [entry] rest, .cons haims .nil,
        by simpa using hpart⟩
    · rw [bind_run_ok hrun]
      obtain ⟨parts, written, hprefix, hall, hsaid⟩ := ih v
      exact ⟨part :: parts, entry :: written, List.cons_prefix_cons.2 ⟨rfl, hprefix⟩,
        .cons haims hall, hpart.trans hsaid⟩

end Collection

end

/-! ### A member whose name leads further

A collection whose members have a child. The name of a member, a slash and the name of the child
make up the name of no member, but a deletion under it is one of the child.
-/

namespace Rack

def remote : Remote Unit := .agreeing fun _ => ([], ())

def part : Descriptor := .container ⟨"U", "u", 0⟩ [] [] []

def items : Descriptor := .collection ⟨"T", "t", 0⟩ (.container ⟨"T", "t", 0⟩ [] [part] [])

def schema : Compiled := ⟨"", "", "Root", .container ⟨"Root", "root", 0⟩ [] [items] []⟩

def session : Session := ⟨⟨schema, .compiled⟩, 0⟩

def collection : Collection := ⟨session.root, 0, items⟩

def world : World (List Exchange × Unit) :=
  (Action.performAll remote.traced [.adopt "s" schema] { remote := ([], ()) }).2

theorem proper : ∀ d, schema.root.Reaches d → Proper d.remote := by
  have hpart : ∀ d, part.Reaches d → Proper d.remote :=
    Descriptor.forall_reaches_iff.2 ⟨by decide, by simp [part, Descriptor.parts]⟩
  have hitems : ∀ d, items.Reaches d → Proper d.remote := by
    refine Descriptor.forall_reaches_iff.2 ⟨by decide, fun m hm => ?_⟩
    rw [List.mem_singleton.1 hm]
    exact Descriptor.forall_reaches_iff.2 ⟨by decide, by simpa [Descriptor.parts] using hpart⟩
  exact Descriptor.forall_reaches_iff.2
    ⟨by decide, by simpa [schema, Descriptor.parts] using hitems⟩

end Rack

end SettingsTree
