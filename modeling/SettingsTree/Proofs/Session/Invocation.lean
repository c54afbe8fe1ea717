import SettingsTree.Proofs.Schema.WellFormed
import SettingsTree.Proofs.Session.Trace
import SettingsTree.Session.Action

/-! # What invoking a command sends

A keyword that names no argument is refused, and so is a call without an essential argument; nothing
is said to the remote then. Otherwise one call is made. It has what was given, each value under the
remote name of its argument and in the order of the arguments, and last the path of the object that
the command belongs to, if the command wants it. No keyword stands for the path.
-/

namespace SettingsTree

open Client

namespace Signature

variable (signature : Signature) (keywords : List (String × Json))

def absent : List Descriptor := signature.arguments.filter fun a =>
  signature.isEssential a.remote && !(Keyed.names keywords).contains a.localName

/-- What is given for the arguments, under their remote names. Of several values for one keyword the
last one counts. -/
def given : Keyed Json := signature.arguments.filterMap fun a =>
  (Keyed.last? a.localName keywords).map fun value => (a.remote, value)

def pathEntry (owner : String) : Keyed Json :=
  signature.pathArgument.toList.map fun name => (name, .str owner)

/-- What is sent for keywords that all name arguments. -/
structure Sends (owner : String) (sent : Keyed Json) : Prop where
  entries : sent = signature.given keywords ++ signature.pathEntry owner
  distinct : Keyed.Distinct sent
  /-- What is sent for an argument is what is given for its local name. -/
  keyword : ∀ name value, Keyed.last? name keywords = some value ↔
    ∃ a ∈ signature.arguments, a.localName = name ∧ Keyed.get? a.remote sent = some value
  /-- No keyword stands for the path of the owner. -/
  path : ∀ name, signature.pathArgument = some name →
    (∀ a ∈ signature.arguments, a.remote ≠ name) ∧ Keyed.get? name sent = some (.str owner)

variable {signature keywords}

/-! ### Keywords that are refused -/

theorem argument?_eq_none_iff {name : String} :
    signature.argument? name = none ↔ name ∉ signature.argumentNames := by
  simp [argument?, byLocal?_eq_none_iff, argumentNames]

/-- Repeated keywords do not change which keyword is the first one that names no argument. -/
theorem find?_undeclared (keywords : List (String × Json)) :
    ((Keyed.names (Keyed.ofList keywords)).find? fun name => (signature.argument? name).isNone) =
      (Keyed.names keywords).find? fun name => name ∉ signature.argumentNames := by
  rw [Keyed.find?_names_ofList]
  congr
  funext name
  rw [Bool.eq_iff_iff, Option.isNone_iff_eq_none, decide_eq_true_eq]
  exact argument?_eq_none_iff

theorem refusal?_of_undeclared {name : String} (command : String)
    (h : (Keyed.names keywords).find? (fun name => name ∉ signature.argumentNames) = some name) :
    signature.refusal? command (Keyed.ofList keywords) = some (.unknown command name) := by
  rw [refusal?, find?_undeclared, h]

theorem has_ofList (name : String) :
    Keyed.has name (Keyed.ofList keywords) = (Keyed.names keywords).contains name := by
  rw [Bool.eq_iff_iff, Keyed.has, Keyed.get?_ofList, Option.isSome_iff_ne_none, ne_eq,
    Keyed.last?_eq_none_iff, not_not, List.contains_iff_mem]

theorem essentialNames_filter :
    (signature.essentialNames.filter fun name => !Keyed.has name (Keyed.ofList keywords)) =
      (signature.absent keywords).map Descriptor.localName := by
  rw [essentialNames, List.filter_map, List.filter_filter, absent]
  simp only [Function.comp_apply, has_ofList, Bool.and_comm]

theorem refusal?_of_declared (command : String)
    (h : ∀ name ∈ Keyed.names keywords, name ∈ signature.argumentNames) :
    signature.refusal? command (Keyed.ofList keywords) =
      if signature.absent keywords = [] then none
      else some (.missing command ((signature.absent keywords).map Descriptor.localName)) := by
  have hnone :
      (Keyed.names keywords).find? (fun name => name ∉ signature.argumentNames) = none := by
    simpa using h
  rw [refusal?, find?_undeclared, hnone]
  dsimp only
  rw [essentialNames_filter]
  cases signature.absent keywords <;> rfl

/-! ### Keywords that are sent -/

/-- A keyword serves one argument only, so that it is dropped makes no difference to the others. -/
theorem sentArguments_eq {arguments : List Descriptor}
    (locals : (arguments.map Descriptor.localName).Nodup) {given current : Keyed Json}
    (agree : ∀ a ∈ arguments, Keyed.get? a.localName current = Keyed.get? a.localName given)
    (sent : Keyed Json) :
    sentArguments arguments current sent = Keyed.insertAll sent (arguments.filterMap fun a =>
      (Keyed.get? a.localName given).map fun value => (a.remote, value)) := by
  induction arguments generalizing current sent with
  | nil => rfl
  | cons a rest ih =>
    rw [List.map_cons, List.nodup_cons] at locals
    have hrest : ∀ b ∈ rest, Keyed.get? b.localName current = Keyed.get? b.localName given :=
      fun b hb => agree b (List.mem_cons_of_mem _ hb)
    rw [sentArguments, agree a List.mem_cons_self]
    cases hvalue : Keyed.get? a.localName given with
    | none => simp [hvalue, ih locals.2 hrest]
    | some value =>
      have hdropped : ∀ b ∈ rest, Keyed.get? b.localName (Keyed.erase a.localName current) =
          Keyed.get? b.localName given := by
        intro b hb
        have hne : b.localName ≠ a.localName :=
          fun heq => locals.1 (heq ▸ List.mem_map_of_mem hb)
        rw [Keyed.get?_erase, if_neg hne, hrest b hb]
      simp [hvalue, ih locals.2 hdropped]

section

variable {pathArgument : String} (well : signature.WellFormed pathArgument)

theorem mem_given_iff {entry : String × Json} : entry ∈ signature.given keywords ↔
    ∃ a ∈ signature.arguments, Keyed.last? a.localName keywords = some entry.2 ∧
      a.remote = entry.1 := by
  simp only [given, List.mem_filterMap, Option.map_eq_some_iff]
  constructor
  · rintro ⟨a, ha, value, hvalue, rfl⟩
    exact ⟨a, ha, hvalue, rfl⟩
  · rintro ⟨a, ha, hvalue, hremote⟩
    exact ⟨a, ha, entry.2, hvalue, Prod.ext hremote rfl⟩

include well

theorem WellFormed.distinct_given : Keyed.Distinct (signature.given keywords) := by
  have hremotes : (Keyed.names (signature.given keywords)).Sublist
      (signature.arguments.map Descriptor.remote) := by
    refine filterMap_map_sublist (fun a entry h => ?_) signature.arguments
    obtain ⟨_, -, rfl⟩ := Option.map_eq_some_iff.1 h
    rfl
  exact hremotes.nodup well.siblings.remotes

theorem WellFormed.get?_given {a : Descriptor} (ha : a ∈ signature.arguments) :
    Keyed.get? a.remote (signature.given keywords) = Keyed.last? a.localName keywords := by
  ext value
  constructor
  · intro h
    obtain ⟨b, hb, hvalue, hremote⟩ := mem_given_iff.1 (Keyed.mem_of_get? h)
    obtain rfl := List.inj_on_of_nodup_map well.siblings.remotes hb ha hremote
    exact hvalue
  · intro h
    exact Keyed.get?_of_mem well.distinct_given (mem_given_iff.2 ⟨a, ha, h, rfl⟩)

theorem WellFormed.unlisted_given (keywords : List (String × Json)) {name : String}
    (h : signature.pathArgument = some name) :
    (∀ a ∈ signature.arguments, a.remote ≠ name) ∧
      name ∉ Keyed.names (signature.given keywords) := by
  obtain rfl := well.supplied name h
  refine ⟨well.unlisted, fun hmem => ?_⟩
  obtain ⟨entry, hentry, hname⟩ := List.mem_map.1 hmem
  obtain ⟨a, ha, -, hremote⟩ := mem_given_iff.1 hentry
  exact well.unlisted a ha (hremote.trans hname)

theorem WellFormed.payload_eq (owner : String) :
    signature.payload owner (Keyed.ofList keywords) =
        signature.given keywords ++ signature.pathEntry owner ∧
      Keyed.Distinct (signature.payload owner (Keyed.ofList keywords)) := by
  have hgiven : sentArguments signature.arguments (Keyed.ofList keywords) [] =
      signature.given keywords := by
    rw [sentArguments_eq well.locals (fun _ _ => rfl)]
    simp only [Keyed.get?_ofList]
    exact Keyed.ofList_of_distinct well.distinct_given
  rw [payload, hgiven, pathEntry]
  cases hpath : signature.pathArgument with
  | none => exact ⟨(List.append_nil _).symm, well.distinct_given⟩
  | some name =>
    have hnot := (well.unlisted_given keywords hpath).2
    exact ⟨Keyed.insert_of_not_mem hnot _, well.distinct_given.insert name _⟩

theorem WellFormed.get?_payload (owner : String) {a : Descriptor} (ha : a ∈ signature.arguments) :
    Keyed.get? a.remote (signature.payload owner (Keyed.ofList keywords)) =
      Keyed.last? a.localName keywords := by
  have hpath : Keyed.get? a.remote (signature.pathEntry owner) = none := by
    rw [Keyed.get?_eq_none_iff, pathEntry]
    simp only [Keyed.names, List.map_map, List.mem_map, Option.mem_toList, not_exists, not_and]
    exact fun name hname => ((well.unlisted_given keywords hname).1 a ha).symm
  rw [(well.payload_eq owner).1, Keyed.get?_append, well.get?_given ha, hpath, Option.or_none]

/-- When all keywords name arguments, exactly what is given is sent. -/
theorem WellFormed.sends_payload (owner : String)
    (declared : ∀ name ∈ Keyed.names keywords, name ∈ signature.argumentNames) :
    signature.Sends keywords owner (signature.payload owner (Keyed.ofList keywords)) where
  entries := (well.payload_eq owner).1
  distinct := (well.payload_eq owner).2
  keyword name value := by
    constructor
    · intro hvalue
      have hname : name ∈ Keyed.names keywords := by
        by_contra hnot
        rw [Keyed.last?_eq_none_iff.2 hnot] at hvalue
        cases hvalue
      obtain ⟨a, ha, rfl⟩ := List.mem_map.1 (declared name hname)
      exact ⟨a, ha, rfl, (well.get?_payload owner ha).trans hvalue⟩
    · rintro ⟨a, ha, rfl, hvalue⟩
      exact (well.get?_payload owner ha).symm.trans hvalue
  path name h := by
    obtain ⟨hunlisted, hnot⟩ := well.unlisted_given keywords h
    refine ⟨hunlisted, ?_⟩
    rw [(well.payload_eq owner).1, Keyed.get?_append, Keyed.get?_eq_none_iff.2 hnot, pathEntry, h]
    simp

/-- Absent arguments are listed in the order of their ordinals. -/
theorem WellFormed.ordered_absent :
    (signature.absent keywords).Pairwise fun a b => a.ordinal ≤ b.ordinal :=
  well.siblings.ordered.sublist List.filter_sublist

end

end Signature

/-! ### Commands -/

section

variable {σ : Type} (remote : Remote σ)

namespace Command

variable {c : Command} {w : World (List Exchange × σ)} {keywords : List (String × Json)}

theorem invoke_refused {fault : ArgumentError}
    (h : c.signature.refusal? c.label.localName (Keyed.ofList keywords) = some fault) :
    c.invoke remote.traced keywords w = (.error (.argument fault), w) := by
  rw [invoke, h]
  rfl

/-- A command whose owners live makes one call. -/
theorem invoke_accepted
    (h : c.signature.refusal? c.label.localName (Keyed.ofList keywords) = none)
    (attached : (Node.command c).Attached w.memory) :
    c.invoke remote.traced keywords w = ask remote.traced (.execute c.owner.place c.label.remote
      (c.signature.payload c.owner.place (Keyed.ofList keywords))) w := by
  rw [invoke, h]
  dsimp only
  have alive : w.memory.require c.owner.address = .ok () := Memory.require_eq_ok_iff.2 attached.1
  rw [consult_bind_ok alive, consult_bind_ok (Container.path_eq_ok_iff.2 ⟨attached.2, rfl⟩)]

/-- A command of a compiled schema is invoked on an object that lives, with keywords in any order
and with any repetitions. The first keyword that names no argument is refused. If there is none,
essential arguments that are absent are, in the order of their ordinals. Nothing is said then. In
all other cases one call is made, and it has exactly what is given and the path of the object. -/
theorem invoke_sends {raw : Json} {rootType : String} {options : Options} {schema : Compiled}
    (unique : raw.Unique) (compiled : compile raw rootType options = .ok schema)
    (hc : schema.root.Reaches c.descriptor) (attached : (Node.command c).Attached w.memory)
    (keywords : List (String × Json)) :
    ∃ owner, c.owner.path w.memory = .ok owner ∧
      (∀ name,
        (Keyed.names keywords).find? (fun name => name ∉ c.signature.argumentNames) = some name →
        c.invoke remote.traced keywords w =
          (.error (.argument (.unknown c.label.localName name)), w)) ∧
      ((∀ name ∈ Keyed.names keywords, name ∈ c.signature.argumentNames) →
        ((c.signature.absent keywords).Pairwise fun a b => a.ordinal ≤ b.ordinal) ∧
        (c.signature.absent keywords ≠ [] →
          c.invoke remote.traced keywords w = (.error (.argument (.missing c.label.localName
            ((c.signature.absent keywords).map Descriptor.localName))), w)) ∧
        (c.signature.absent keywords = [] →
          ∃ sent, c.signature.Sends keywords owner sent ∧
            w.Said [remote.exchange (.execute owner c.label.remote sent) w.remote.2]
              (c.invoke remote.traced keywords w).2 ∧
            (c.invoke remote.traced keywords w).2.memory = w.memory ∧
            (c.invoke remote.traced keywords w).1 =
              (remote.call (.execute owner c.label.remote sent) w.remote.2).1.mapError
                .transport)) := by
  have well : c.signature.WellFormed options.pathArgument :=
    wellFormed_of_compile unique compiled hc
  refine ⟨c.owner.place, Container.path_eq_ok_iff.2 ⟨attached.2, rfl⟩, fun name hname => ?_,
    fun declared => ⟨well.ordered_absent, fun habsent => ?_, fun habsent => ?_⟩⟩
  · exact invoke_refused remote (Signature.refusal?_of_undeclared _ hname)
  · apply invoke_refused
    rw [Signature.refusal?_of_declared _ declared, if_neg habsent]
  · have haccepted : c.signature.refusal? c.label.localName (Keyed.ofList keywords) = none := by
      rw [Signature.refusal?_of_declared _ declared, if_pos habsent]
    refine ⟨_, well.sends_payload c.owner.place declared, ?_⟩
    rw [invoke_accepted remote haccepted attached, ask_run]
    exact ⟨rfl, rfl, rfl⟩

end Command

end

/-! ### A command that receives the path

The command of the crowded schema has two arguments whose names collide, of which the second one is
essential, and one that receives the path.
-/

namespace Crowded

def remote : Remote Unit := .agreeing fun _ => ([], ())

def world : World (List Exchange × Unit) :=
  (Action.performAll remote.traced [.adopt "s" schema] { remote := ([], ()) }).2

def run : Command :=
  ⟨.root 0 root, 0, ⟨"Run", "run_2", Entry.lastOrdinal⟩,
    ⟨[.leaf ⟨"MaxSteps", "max_steps", 0⟩ .integer, .leaf ⟨"maxSteps", "max_steps_1", 1⟩ .integer],
      ["maxSteps"], some "ObjectPath", false⟩⟩

theorem attached : (Node.command run).Attached world.memory := ⟨by decide +kernel, trivial⟩

end Crowded

/-- Of two values for one keyword the last one is sent, in the order of the arguments. The argument
that receives the path is no keyword, and the essential argument must be given. -/
theorem Crowded.invoked :
    Crowded.raw.Unique ∧ compile Crowded.raw "Root" {} = .ok Crowded.schema ∧
      Crowded.root.Reaches Crowded.run.descriptor ∧
      (Node.command Crowded.run).Attached Crowded.world.memory ∧
      Crowded.world.Said [⟨.execute "/Root" "Run"
          [("MaxSteps", .int 2), ("maxSteps", .int 3), ("ObjectPath", .str "/Root")], .ok .null⟩]
        (Crowded.run.invoke Crowded.remote.traced
          [("max_steps_1", .int 1), ("max_steps", .int 2), ("max_steps_1", .int 3)]
          Crowded.world).2 ∧
      Crowded.run.invoke Crowded.remote.traced [("object_path", .str "/"), ("x", .null)]
        Crowded.world = (.error (.argument (.unknown "run_2" "object_path")), Crowded.world) ∧
      Crowded.run.invoke Crowded.remote.traced [("max_steps", .int 1)]
        Crowded.world = (.error (.argument (.missing "run_2" ["max_steps_1"])), Crowded.world) := by
  have reaches : Crowded.root.Reaches Crowded.run.descriptor :=
    .command (List.mem_singleton.2 rfl) .root
  have invoked (keywords : List (String × Json)) := Command.invoke_sends Crowded.remote
    Crowded.unique Crowded.compiled reaches Crowded.attached keywords
  refine ⟨Crowded.unique, Crowded.compiled, reaches, Crowded.attached, ?_, ?_, ?_⟩
  · obtain ⟨owner, howner, -, h⟩ :=
      invoked [("max_steps_1", .int 1), ("max_steps", .int 2), ("max_steps_1", .int 3)]
    obtain ⟨sent, hsends, hsaid, -⟩ := (h (by decide +kernel)).2.2 (by decide +kernel)
    obtain rfl : "/Root" = owner := Except.ok.inj howner
    rw [hsends.entries] at hsaid
    exact hsaid
  · obtain ⟨owner, -, h, -⟩ := invoked [("object_path", .str "/"), ("x", .null)]
    exact h "object_path" (by decide +kernel)
  · obtain ⟨owner, -, -, h⟩ := invoked [("max_steps", .int 1)]
    exact (h (by decide +kernel)).2.1 (by decide +kernel)

end SettingsTree
