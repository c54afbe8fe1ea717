import SettingsTree.Proofs.Path.Parsed
import SettingsTree.Proofs.Schema.Lookup
import SettingsTree.Schema.Compile

/-! # What is found at a path

What is found at a path depends on the types along it only. They are followed downward, and each
type leads to the first member of this remote name.
-/

namespace SettingsTree

namespace Descriptor

/-- The position that remote names lead to, one after the other. -/
def walk? : Descriptor → List String → Option Descriptor
  | d, [] => some d
  | d, name :: rest => (d.descend? name).bind fun next => next.walk? rest

variable {d e : Descriptor}

@[simp] theorem walk?_nil (d : Descriptor) : d.walk? [] = some d := rfl

theorem walk?_cons (d : Descriptor) (name : String) (rest : List String) :
    d.walk? (name :: rest) = (d.descend? name).bind fun next => next.walk? rest := rfl

theorem walk?_append (d : Descriptor) (front back : List String) :
    d.walk? (front ++ back) = (d.walk? front).bind fun next => next.walk? back := by
  induction front generalizing d with
  | nil => rfl
  | cons name front ih =>
    rw [List.cons_append, walk?_cons, walk?_cons, Option.bind_assoc]
    congr
    funext next
    exact ih next

theorem remote_of_descend? {name : String} (h : d.descend? name = some e) : e.remote = name := by
  obtain ⟨members, -, hfound⟩ := Option.bind_eq_some_iff.1 h
  simpa using List.find?_some hfound

theorem remote_of_walk? {names : List String} (h : d.walk? names = some e) :
    e.remote ∈ d.remote :: names := by
  induction names generalizing d with
  | nil =>
    rw [walk?_nil, Option.some.injEq] at h
    exact h ▸ List.mem_cons_self
  | cons name rest ih =>
    obtain ⟨next, hnext, hrest⟩ := Option.bind_eq_some_iff.1 h
    exact List.mem_cons_of_mem _ (remote_of_descend? hnext ▸ ih hrest)

/-- When the remote names of all members are different, that of a member leads to it. -/
theorem descend?_of_mem {members : Members} (h : d.members? = some members)
    (distinct : (members.all.map fun m => m.descriptor.remote).Nodup) {m : Member}
    (hm : m ∈ members.all) : d.descend? m.descriptor.remote = some m.descriptor := by
  have hall : members.all.map Member.descriptor =
      members.properties ++ members.children ++ members.commands := by
    simp [Members.all, Function.comp_def, Member.descriptor]
  have hdistinct : ((members.all.map Member.descriptor).map remote).Nodup := by
    simpa [Function.comp_def] using distinct
  rw [descend?, h, Option.bind_some, Members.descend?, byRemote?, ← hall,
    find?_name_eq_some_iff hdistinct]
  exact ⟨List.mem_map_of_mem hm, rfl⟩

end Descriptor

namespace Compiled

theorem follow_eq_ok_iff {path : String} {steps : Path} {d e : Descriptor} :
    follow path d steps = .ok e ↔ d.walk? (steps.map Step.type) = some e := by
  induction steps generalizing d with
  | nil => simp [follow]
  | cons step rest ih =>
    rw [follow, List.map_cons, Descriptor.walk?_cons]
    cases d.descend? step.type with
    | none => simp
    | some next => exact ih

/-- Something is found exactly when the types along the path begin with the root and lead on from
there. -/
theorem find_eq_ok_iff {schema : Compiled} {path : String} {d : Descriptor} :
    schema.find path = .ok d ↔
      ∃ rest, Path.types path = schema.root.remote :: rest ∧ schema.root.walk? rest = some d := by
  rw [find, Path.types]
  cases Path.parse path with
  | nil => simp
  | cons first rest =>
    dsimp only
    split
    · next hfirst =>
      rw [follow_eq_ok_iff, ← hfirst]
      simp
    · next hfirst =>
      simp only [List.map_cons, List.cons.injEq, reduceCtorEq, false_iff]
      rintro ⟨_, ⟨heq, -⟩, -⟩
      exact hfirst heq

/-- The same is found at a path and at its type path. -/
theorem find_typePath_eq_ok_iff {schema : Compiled} {path : String} {d : Descriptor} :
    schema.find (Path.typePath path) = .ok d ↔ schema.find path = .ok d := by
  rw [find_eq_ok_iff, find_eq_ok_iff, Path.types_typePath]

/-- What is found has a name without a slash and without a colon. -/
theorem unbroken_of_find {schema : Compiled} {path : String} {d : Descriptor}
    (h : schema.find path = .ok d) : Unbroken d.remote := by
  obtain ⟨rest, htypes, hwalk⟩ := find_eq_ok_iff.1 h
  exact Path.unbroken_of_mem_types (htypes ▸ Descriptor.remote_of_walk? hwalk)

end Compiled

end SettingsTree
