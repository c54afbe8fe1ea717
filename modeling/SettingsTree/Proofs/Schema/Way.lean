import SettingsTree.Proofs.Schema.Find
import SettingsTree.Proofs.Schema.WellFormed

/-! # Ways down a compiled tree

A way down leads from the root to a member of it, to a member of that member, and so on, through a
collection to the members of its template. Its type path leads to the same position, unless a name
on the way has a slash or a colon in it, or a member on the way has the name of one that is looked
at earlier: a child that of a property, or a command that of a property or a child.
-/

namespace SettingsTree

open Entry

/-! ### Ways -/

/-- The members that are looked at before those of the list in which a member stands. -/
def Members.earlier (members : Members) : Member → List Descriptor
  | .property _ => []
  | .child _ => members.properties
  | .command _ => members.properties ++ members.children

namespace Descriptor

/-- A way down from a position: each member is one of the position above it. -/
def Leads : Descriptor → List Member → Prop
  | _, [] => True
  | d, m :: rest => (∃ members, d.members? = some members ∧ m ∈ members.all) ∧
    m.descriptor.Leads rest

/-- No member on a way down has the name of one that is looked at earlier. -/
def Unshadowed : Descriptor → List Member → Prop
  | _, [] => True
  | d, m :: rest => (∀ members, d.members? = some members → ∀ e ∈ members.earlier m,
    e.remote ≠ m.descriptor.remote) ∧ m.descriptor.Unshadowed rest

def endOf (d : Descriptor) (way : List Member) : Descriptor :=
  (way.map Member.descriptor).getLastD d

def namesOf (d : Descriptor) (way : List Member) : List String :=
  d.remote :: way.map fun m => m.descriptor.remote

def typePathOf (d : Descriptor) (way : List Member) : String :=
  Path.renderTypes ((d.namesOf way).map fun name => ⟨name, none⟩)

variable {d e : Descriptor} {way : List Member} {m : Member}

@[simp] theorem endOf_nil (d : Descriptor) : d.endOf [] = d := rfl

@[simp] theorem endOf_cons (d : Descriptor) (m : Member) (rest : List Member) :
    d.endOf (m :: rest) = m.descriptor.endOf rest := by
  rw [endOf, List.map_cons, List.getLastD_cons, endOf]

theorem endOf_concat (d : Descriptor) (way : List Member) (m : Member) :
    d.endOf (way ++ [m]) = m.descriptor := by
  simp [endOf, List.getLastD_eq_getLast?]

end Descriptor

/-! ### One step -/

theorem byRemote?_eq_some_iff_of_mem (front rest : List Descriptor) {own : List Descriptor}
    {d : Descriptor} (distinct : (own.map Descriptor.remote).Nodup) (hd : d ∈ own)
    (hfront : d ∉ front) :
    byRemote? d.remote (front ++ own ++ rest) = some d ↔ ∀ e ∈ front, e.remote ≠ d.remote := by
  have hown : byRemote? d.remote own = some d := (find?_name_eq_some_iff distinct).2 ⟨hd, rfl⟩
  rw [byRemote?, List.find?_append, List.find?_append, ← byRemote?, ← byRemote?, hown]
  cases hfound : byRemote? d.remote front with
  | none =>
    have hnone : ∀ e ∈ front, e.remote ≠ d.remote := by
      simpa [byRemote?] using List.find?_eq_none.1 hfound
    simpa using hnone
  | some e =>
    have he : e ∈ front := List.mem_of_find?_eq_some hfound
    have hremote : e.remote = d.remote := by simpa using List.find?_some hfound
    simp only [Option.some_or, Option.some.injEq]
    exact ⟨fun heq => absurd (heq ▸ he) hfront, fun h => absurd hremote (h e he)⟩

/-- The name of a member leads to it, unless it is that of a member that is looked at earlier. -/
theorem Members.WellFormed.descend?_eq_some_iff {members : Members}
    (wellFormed : members.WellFormed) {m : Member} (hm : m ∈ members.all) :
    members.descend? m.descriptor.remote = some m.descriptor ↔
      ∀ e ∈ members.earlier m, e.remote ≠ m.descriptor.remote := by
  obtain ⟨hproperties, hchildren, hcommands⟩ := wellFormed.siblings
  unfold descend?
  cases m with
  | property p =>
    have hmem : p ∈ members.properties := by simpa [all] using hm
    rw [List.append_assoc]
    exact byRemote?_eq_some_iff_of_mem [] _ hproperties.remotes hmem List.not_mem_nil
  | child c =>
    have hmem : c ∈ members.children := by simpa [all] using hm
    refine byRemote?_eq_some_iff_of_mem _ _ hchildren.remotes hmem fun hp => ?_
    have hkind := wellFormed.children c hmem
    simp [wellFormed.properties c hp] at hkind
  | command k =>
    have hmem : k ∈ members.commands := by simpa [all] using hm
    have hkind := wellFormed.commands k hmem
    have hfront : k ∉ members.properties ++ members.children := by
      rw [List.mem_append, not_or]
      refine ⟨fun hp => ?_, fun hc => ?_⟩
      · simp [wellFormed.properties k hp] at hkind
      · rcases wellFormed.children k hc with h | h <;> simp [h] at hkind
    have h := byRemote?_eq_some_iff_of_mem _ [] hcommands.remotes hmem hfront
    rwa [List.append_nil] at h

namespace Descriptor

variable {d e : Descriptor} {way : List Member} {m : Member} {pathArgument : String}

theorem members_wellFormed (wellFormed : ∀ x, d.Reaches x → x.WellFormed pathArgument)
    {members : Members} (h : d.members? = some members) : members.WellFormed := by
  induction d with
  | container label properties children commands =>
    cases h
    exact wellFormed _ .root
  | collection label template ih => exact ih (fun x hx => wellFormed x (.of_template hx)) h
  | leaf | command => cases h

/-- The names along a way lead down it, all the way, exactly if no member is shadowed. The induction
goes down the way: that the tree is well-formed is handed on to what lies below the first member. -/
theorem walk?_way_iff (wellFormed : ∀ x, d.Reaches x → x.WellFormed pathArgument)
    (leads : d.Leads way) :
    (∀ front, front <+: way →
        d.walk? (front.map fun m => m.descriptor.remote) = some (d.endOf front)) ↔
      d.Unshadowed way := by
  induction way generalizing d with
  | nil => simp [Unshadowed]
  | cons m rest ih =>
    obtain ⟨⟨members, hmembers, hm⟩, hrest⟩ := leads
    have hstep : d.descend? m.descriptor.remote = some m.descriptor ↔
        ∀ members, d.members? = some members → ∀ e ∈ members.earlier m,
          e.remote ≠ m.descriptor.remote := by
      rw [descend?, hmembers, Option.bind_some,
        (members_wellFormed wellFormed hmembers).descend?_eq_some_iff hm]
      simp
    have hbelow : ∀ x, m.descriptor.Reaches x → x.WellFormed pathArgument := fun x hx =>
      wellFormed x ((reaches_member hmembers hm).trans hx)
    rw [Unshadowed, ← hstep, ← ih hbelow hrest]
    constructor
    · intro h
      have hfirst : d.descend? m.descriptor.remote = some m.descriptor := by
        simpa [walk?_cons] using h [m] (List.prefix_append [m] rest)
      refine ⟨hfirst, fun front hfront => ?_⟩
      have hall := h (m :: front) (List.cons_prefix_cons.2 ⟨rfl, hfront⟩)
      rwa [List.map_cons, walk?_cons, hfirst, Option.bind_some, endOf_cons] at hall
    · rintro ⟨hfirst, h⟩ front hfront
      rcases List.prefix_cons_iff.1 hfront with rfl | ⟨after, rfl, hafter⟩
      · rfl
      · rw [List.map_cons, walk?_cons, hfirst, Option.bind_some, endOf_cons]
        exact h after hafter

end Descriptor

/-! ### Whole ways -/

namespace Compiled

variable {schema : Compiled} {way : List Member}

/-- Names without slashes and colons are read back from the type path of a way. -/
theorem find_typePathOf_eq_ok_iff (unbroken : ∀ name ∈ schema.root.namesOf way, Unbroken name)
    {d : Descriptor} : schema.find (schema.root.typePathOf way) = .ok d ↔
      schema.root.walk? (way.map fun m => m.descriptor.remote) = some d := by
  have htypes : Path.types (schema.root.typePathOf way) = schema.root.namesOf way := by
    rw [Descriptor.typePathOf, Path.types_renderTypes]
    · simp [Function.comp_def]
    · intro step hstep
      obtain ⟨name, hname, rfl⟩ := List.mem_map.1 hstep
      exact unbroken name hname
  rw [find_eq_ok_iff, htypes, Descriptor.namesOf]
  simp

/-- When each part of a way is found at its type path, no name on the way has a slash or a colon. -/
theorem unbroken_of_finds (h : ∀ front, front <+: way →
      schema.find (schema.root.typePathOf front) = .ok (schema.root.endOf front)) :
    ∀ name ∈ schema.root.namesOf way, Unbroken name := by
  intro name hname
  rcases List.mem_cons.1 hname with rfl | hname
  · exact unbroken_of_find (h [] List.nil_prefix)
  · obtain ⟨m, hm, rfl⟩ := List.mem_map.1 hname
    obtain ⟨front, back, rfl⟩ := List.append_of_mem hm
    have hfound := h (front ++ [m]) ⟨back, by simp⟩
    rw [Descriptor.endOf_concat] at hfound
    exact unbroken_of_find hfound

/-- A way down a compiled tree: its end, and also each position on it, is found at its type path,
exactly if no name on the way has a slash or a colon in it, and no member on the way has the name of
one that is looked at earlier. -/
theorem find_way_iff {raw : Json} {rootType : String} {options : Options} (unique : raw.Unique)
    (compiled : compile raw rootType options = .ok schema) (leads : schema.root.Leads way) :
    (∀ front, front <+: way →
        schema.find (schema.root.typePathOf front) = .ok (schema.root.endOf front)) ↔
      (∀ name ∈ schema.root.namesOf way, Unbroken name) ∧ schema.root.Unshadowed way := by
  obtain ⟨top, entry, ordinal, root, rfl, hget, -, -, hroot, -, rfl⟩ := compile_eq_ok_iff.1 compiled
  have hunique : (Json.obj entry).Unique := unique.member (Keyed.mem_of_get? hget)
  have wellFormed : ∀ x, root.Reaches x → x.WellFormed options.pathArgument := fun x hx =>
    hroot.wellFormed_of_reaches hunique hx
  rw [← Descriptor.walk?_way_iff wellFormed leads]
  -- the type path of a part of the way has names of the way only
  have hpart (unbroken : ∀ name ∈ root.namesOf way, Unbroken name) (front : List Member)
      (hfront : front <+: way) : ∀ name ∈ root.namesOf front, Unbroken name := fun name hname =>
    unbroken name (List.cons_subset_cons _ (List.map_subset _ hfront.subset) hname)
  constructor
  · intro h
    have unbroken := unbroken_of_finds h
    exact ⟨unbroken, fun front hfront =>
      (find_typePathOf_eq_ok_iff (hpart unbroken front hfront)).1 (h front hfront)⟩
  · rintro ⟨unbroken, h⟩ front hfront
    exact (find_typePathOf_eq_ok_iff (hpart unbroken front hfront)).2 (h front hfront)

end Compiled

namespace Crowded

def topology : Descriptor := .leaf ⟨"Topology", "topology", 0⟩ .string

def way : List Member :=
  [.child (.collection region (.container region [topology] [] [])), .property topology]

/-- The setting is found, though a property and a command of the root have one name. -/
theorem find_way :
    raw.Unique ∧ compile raw "Root" {} = .ok schema ∧ schema.root.Leads way ∧
      schema.find (schema.root.typePathOf way) = .ok topology := by
  have leads : schema.root.Leads way :=
    ⟨⟨_, rfl, by simp [Members.all, topology]⟩, ⟨_, rfl, by simp [Members.all]⟩, trivial⟩
  have unshadowed : schema.root.Unshadowed way := by
    refine ⟨fun members hmembers => ?_, fun members hmembers => ?_, trivial⟩
    · cases hmembers
      decide
    · cases hmembers
      simp [Members.earlier]
  have hfind := (Compiled.find_way_iff unique compiled leads).2 ⟨by decide +kernel, unshadowed⟩
  exact ⟨unique, compiled, leads, hfind way (List.prefix_refl way)⟩

end Crowded

/-! ### Two members with one name, and a name with a slash -/

namespace Twins

def entry : Entry := [
  ("__parameters", .obj [("A", .obj [("type", .str "Integer")])]),
  ("__children", .obj [("A", .obj []), ("B/C", .obj [])])]

def raw : Json := .obj [("Root", .obj entry)]

def setting : Descriptor := .leaf ⟨"A", "a", lastOrdinal⟩ .integer

def child : Descriptor := .container ⟨"A", "a_1", lastOrdinal⟩ [] [] []

def broken : Descriptor := .container ⟨"B/C", "b/c", lastOrdinal⟩ [] [] []

def root : Descriptor := .container ⟨"Root", "root", lastOrdinal⟩ [setting] [child, broken] []

def schema : Compiled := ⟨raw.digest, Options.digest {}, "Root", root⟩

theorem compiled : compile raw "Root" {} = .ok schema :=
  compile_eq_ok_of_container rfl (Or.inl ⟨Or.inl rfl, rfl⟩) (by decide +kernel)

theorem unique : raw.Unique := by
  simp [raw, entry, Json.Unique, Json.UniqueMembers, Keyed.Distinct]

/-- At the type path of the child the setting is found, and nothing at that of the child whose name
has a slash. -/
theorem find_of_child :
    raw.Unique ∧ compile raw "Root" {} = .ok schema ∧
      root.Leads [.child child] ∧ root.Leads [.child broken] ∧
      schema.find (root.typePathOf [.child child]) = .ok setting ∧ setting ≠ child ∧
      schema.find (root.typePathOf [.child broken]) = .error (.noSuchComponent "/Root/B/C" "B") :=
  ⟨unique, compiled, ⟨⟨_, rfl, by simp [Members.all]⟩, trivial⟩,
    ⟨⟨_, rfl, by simp [Members.all]⟩, trivial⟩, by decide +kernel, by decide, by decide +kernel⟩

end Twins

end SettingsTree
