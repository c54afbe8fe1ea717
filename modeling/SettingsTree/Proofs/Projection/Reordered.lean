import SettingsTree.Proofs.Projection.NestedForm

/-! # Nesting states in any order of keys

The members of a collection and a value under the bare type of the collection meet under one key. A
member behind the value is written into it, or takes its place if the value is no object; a value
behind members takes their place, and they are lost. So what comes out depends on the order of keys,
unless each such member stands in the value anyway. It depends on nothing else.
-/

namespace SettingsTree.Projection

/-- A member that shares an object with its bare type stands in the value under the type as well,
with the same state up to the order of keys. -/
def Reconciled (types : CollectionTypes) (depth : Nat) (state : Keyed Json) : Prop :=
  ∀ entry ∈ state, ∀ type name, nestedKey? types depth entry.1 = some (type, name) →
    ∀ value, (type, value) ∈ state →
      ((nestAt types (depth + 1) value).field? name).map Json.sorted =
        some (nestAt types (depth + 2) entry.2).sorted

/-- Members and bare types are reconciled in every object that is visited. -/
def Settled (types : CollectionTypes) (depth : Nat) (state : Json) : Prop :=
  ∀ below inner, Visits types depth state below inner → Reconciled types below inner

variable {types : CollectionTypes} {depth : Nat} {state out as bs before after : Keyed Json}
  {key type name : String} {entry : String × Json} {value : Json}

theorem settled_of_value (h : value.members? = none) : Settled types depth value :=
  fun _ _ hvisits => absurd hvisits (not_visits_of_value h)

theorem settled_obj_iff : Settled types depth (.obj state) ↔ Reconciled types depth state ∧
    ∀ e ∈ state, Settled types (innerDepth types depth e.1) e.2 := forall_visits_obj_iff

theorem settled_of_kept (kept : ∀ e ∈ state, nestedKey? types depth e.1 = none)
    (inside : ∀ e ∈ state, Settled types (depth + 1) e.2) : Settled types depth (.obj state) := by
  refine settled_obj_iff.2 ⟨fun e he type name hkey => ?_, fun e he => ?_⟩
  · rw [kept e he] at hkey
    cases hkey
  · rw [innerDepth_kept (kept e he)]
    exact inside e he

/-! ### No repeated keys -/

theorem unique_insert (h : (Json.obj out).Unique) (hvalue : value.Unique) :
    (Json.obj (Keyed.insert key value out)).Unique := by
  refine ⟨h.distinct.insert key value, Json.uniqueMembers_iff.2 fun m hm => ?_⟩
  rcases Keyed.mem_insert hm with rfl | hm
  · exact hvalue
  · exact h.member hm

theorem unique_nestEntries (h : (Json.obj out).Unique)
    (inner : ∀ e ∈ state, ∀ below, (nestAt types below e.2).Unique) :
    (Json.obj (nestEntries types depth state out)).Unique := by
  induction state generalizing out with
  | nil => simpa [nestEntries] using h
  | cons e rest ih =>
    rw [List.forall_mem_cons] at inner
    rw [nestEntries_cons]
    refine ih ?_ inner.2
    unfold nestEntry
    split
    · next type name _ =>
      exact unique_insert h (unique_insert (unique_membersUnder type h) (inner.1 _))
    · exact unique_insert h (inner.1 _)

theorem unique_nestAt (types : CollectionTypes) (depth : Nat) (unique : value.Unique) :
    (nestAt types depth value).Unique := by
  induction value generalizing depth with
  | obj state ih =>
    rw [nestAt]
    refine unique_nestEntries ?_ fun e he below => ih e he below (unique.member he)
    simp [Json.Unique, Json.UniqueMembers, Keyed.Distinct]
  | _ => simpa [nestAt] using unique

/-! ### Where members meet a value -/

theorem nestEntries_append (before after out : Keyed Json) :
    nestEntries types depth (before ++ after) out =
      nestEntries types depth after (nestEntries types depth before out) := by
  induction before generalizing out with
  | nil => simp [nestEntries]
  | cons e rest ih => rw [List.cons_append, nestEntries_cons, nestEntries_cons, ih]

theorem membersUnder_insert (key : String) (value : Json) (out : Keyed Json) :
    membersUnder key (Keyed.insert key value out) = value.members?.getD [] := by
  simp [membersUnder, Keyed.get?_insert]

/-- Of the members that meet a value under their type only those behind it are left. -/
theorem get?_nestEntries_meeting (registered : types.has depth type = true) (plain : Plain type)
    (absent : type ∉ Keyed.names after) :
    Keyed.get? type (nestEntries types depth (before ++ (type, value) :: after) out) =
      if listed type (nestAt types (depth + 2)) after = [] then
        some (nestAt types (depth + 1) value)
      else some (.obj (Keyed.insertAll ((nestAt types (depth + 1) value).members?.getD [])
        (listed type (nestAt types (depth + 2)) after))) := by
  have hapart : ∀ e ∈ after, nestedKey? types depth e.1 = none → e.1 ≠ type := by
    rintro e he - rfl
    exact absent (Keyed.mem_names_of_mem he)
  rw [nestEntries_append, nestEntries_cons, nestEntry, nestedKey?_of_plain types depth plain]
  dsimp only
  rw [get?_nestEntries_type registered hapart, membersUnder_insert, Keyed.get?_insert, if_pos rfl]

/-- Writing what is there already, up to the order of keys, changes nothing but that order. -/
theorem sorted_insertAll_of_held {members more : Keyed Json} (distinct : Keyed.Distinct members)
    (held : ∀ m ∈ more, (Keyed.get? m.1 members).map Json.sorted = some m.2.sorted) :
    (Json.obj (Keyed.insertAll members more)).sorted = (Json.obj members).sorted := by
  induction more generalizing members with
  | nil => rfl
  | cons m rest ih =>
    rw [List.forall_mem_cons] at held
    have hsame : ∀ name, (Keyed.get? name (Keyed.insert m.1 m.2 members)).map Json.sorted =
        (Keyed.get? name members).map Json.sorted := by
      intro name
      rw [Keyed.get?_insert]
      split
      · next h => rw [← h, held.1]; rfl
      · rfl
    have hstep := (Json.sorted_obj_iff (distinct.insert m.1 m.2) distinct).2 hsame
    rw [Keyed.insertAll_cons, ← hstep]
    exact ih (distinct.insert m.1 m.2) fun x hx => (hsame x.1).trans (held.2 x hx)

/-- A value that holds all the members that meet it is left, wherever it stands. -/
theorem sorted_get?_claimed (unique : (Json.obj state).Unique)
    (reconciled : Reconciled types depth state) (registered : types.has depth type = true)
    (plain : Plain type) (mem : (type, value) ∈ state) :
    (Keyed.get? type (nestEntries types depth state [])).map Json.sorted =
      some (nestAt types (depth + 1) value).sorted := by
  obtain ⟨before, after, rfl⟩ := List.append_of_mem mem
  have habsent : type ∉ Keyed.names after := by
    have hdistinct := unique.distinct
    rw [Keyed.Distinct, Keyed.names_append, List.nodup_append, Keyed.names_cons,
      List.nodup_cons] at hdistinct
    exact hdistinct.2.1.1
  have hheld : ∀ m ∈ listed type (nestAt types (depth + 2)) after,
      ((nestAt types (depth + 1) value).field? m.1).map Json.sorted = some m.2.sorted := by
    intro m hm
    obtain ⟨e, he, hmember⟩ := List.mem_filterMap.1 hm
    obtain ⟨name, hname, rfl⟩ := Option.map_eq_some_iff.1 hmember
    have hkey := nestedKey?_eq_some_iff.2 ⟨hname, registered⟩
    have hstate : e ∈ before ++ (type, value) :: after :=
      List.mem_append_right _ (List.mem_cons_of_mem _ he)
    exact reconciled e hstate type name hkey value mem
  rw [get?_nestEntries_meeting registered plain habsent]
  split
  · rfl
  · next hne =>
    obtain ⟨m, hm⟩ := List.exists_mem_of_ne_nil _ hne
    have hunique := unique_nestAt types (depth + 1) (unique.member mem)
    cases hvalue : nestAt types (depth + 1) value with
    | obj members =>
      rw [hvalue] at hheld hunique
      exact congrArg some (sorted_insertAll_of_held hunique.distinct hheld)
    | _ => simpa [hvalue, Json.field?, Json.members?] using hheld m hm

/-! ### States with the same under each key -/

/-- Two states have the same keys, and what is nested under a key has one sorted form. -/
def NestAlike (types : CollectionTypes) (depth : Nat) (as bs : Keyed Json) : Prop :=
  ∀ key, (Keyed.get? key as).map (fun v => (nestAt types (innerDepth types depth key) v).sorted) =
    (Keyed.get? key bs).map fun v => (nestAt types (innerDepth types depth key) v).sorted

theorem get?_listed (plain : Plain type) (name : String) (project : Json → Json)
    (state : Keyed Json) : Keyed.get? name (listed type project state) =
      (Keyed.get? (memberKey type name) state).map project := by
  induction state with
  | nil => rfl
  | cons e rest ih =>
    rw [listed] at ih
    rw [listed, List.filterMap_cons, Keyed.get?_cons]
    cases hmember : memberOf? type e.1 with
    | none =>
      have hne : e.1 ≠ memberKey type name := by
        intro h
        rw [h, memberOf?_memberKey plain] at hmember
        cases hmember
      rw [if_neg hne]
      exact ih
    | some found =>
      have hkey : e.1 = memberKey type name ↔ found = name := by
        rw [(memberOf?_eq_some_iff.1 hmember).1, (memberKey_injective type).eq_iff]
      rw [Option.map_some, Keyed.get?_cons, ih]
      simp only [hkey]
      split <;> rfl

theorem get?_nestEntries_unclaimed (distinct : Keyed.Distinct state)
    (kept : nestedKey? types depth key = none)
    (free : ¬(types.has depth key = true ∧ Plain key)) :
    Keyed.get? key (nestEntries types depth state []) =
      (Keyed.get? key state).map (nestAt types (depth + 1)) := by
  rw [get?_nestEntries distinct kept, Keyed.get?_nil, Option.or_none]
  intro e _ hname
  rw [nestedName] at hname
  cases hnested : nestedKey? types depth e.1 with
  | none => simpa [hnested] using hname
  | some parts =>
    obtain ⟨hmember, hregistered⟩ := nestedKey?_eq_some_iff.1 hnested
    rw [hnested] at hname
    subst hname
    exact absurd ⟨hregistered, (memberOf?_eq_some_iff.1 hmember).2⟩ free

theorem get?_nestEntries_nested (h : nestedKey? types depth key = some (type, name)) :
    Keyed.get? key (nestEntries types depth state []) = none := by
  rw [Keyed.get?_eq_none_iff]
  intro hmem
  rcases mem_names_nestEntries hmem with ⟨e, -, rfl⟩ | hmem
  · rw [nestedName] at h
    cases hnested : nestedKey? types depth e.1 with
    | none => simp [hnested] at h
    | some parts =>
      have hplain := (memberOf?_eq_some_iff.1 (nestedKey?_eq_some_iff.1 hnested).1).2
      simp [hnested, nestedKey?_of_plain types depth hplain] at h
  · cases hmem

theorem sorted_nonemptyEntry_congr {members others : Keyed Json}
    (h : (Json.obj members).sorted = (Json.obj others).sorted) (key : String) :
    (Keyed.get? key (nonemptyEntry key members)).map Json.sorted =
      (Keyed.get? key (nonemptyEntry key others)).map Json.sorted := by
  have hlength := (Json.sortedMembers_perm_of_sorted h).length_eq
  rw [Json.sortedMembers_eq, Json.sortedMembers_eq, List.length_map, List.length_map] at hlength
  cases members with
  | nil => rw [List.length_eq_zero_iff.1 hlength.symm]
  | cons member members =>
    cases others with
    | nil => cases hlength
    | cons other others => simpa [nonemptyEntry] using h

namespace NestAlike

variable (alike : NestAlike types depth as bs)

include alike

theorem symm : NestAlike types depth bs as := fun key => (alike key).symm

theorem exists_of_get? (h : Keyed.get? key as = some value) :
    ∃ other, Keyed.get? key bs = some other ∧
      (nestAt types (innerDepth types depth key) value).sorted =
        (nestAt types (innerDepth types depth key) other).sorted := by
  have hkey := alike key
  rw [h, Option.map_some, eq_comm, Option.map_eq_some_iff] at hkey
  obtain ⟨other, hother, hsame⟩ := hkey
  exact ⟨other, hother, hsame.symm⟩

variable (uniqueAs : (Json.obj as).Unique) (uniqueBs : (Json.obj bs).Unique)

include uniqueAs uniqueBs

/-- Whether members and bare types are reconciled does not depend on the order of keys. -/
theorem reconciled (h : Reconciled types depth as) : Reconciled types depth bs := by
  intro e he type name hkey value hvalue
  have hplain : Plain type := (memberOf?_eq_some_iff.1 (nestedKey?_eq_some_iff.1 hkey).1).2
  obtain ⟨body, hbody, hbodies⟩ :=
    alike.symm.exists_of_get? (Keyed.get?_of_mem uniqueBs.distinct he)
  obtain ⟨other, hother, hvalues⟩ :=
    alike.symm.exists_of_get? (Keyed.get?_of_mem uniqueBs.distinct hvalue)
  rw [innerDepth_nested hkey] at hbodies
  rw [innerDepth_kept (nestedKey?_of_plain types depth hplain)] at hvalues
  have hheld := h (e.1, body) (Keyed.mem_of_get? hbody) type name hkey other
    (Keyed.mem_of_get? hother)
  rw [Json.sorted_field?_congr (unique_nestAt types _ (uniqueBs.member hvalue))
    (unique_nestAt types _ (unique_of_get? uniqueAs hother)) hvalues, hheld, hbodies]

theorem sorted_listed (plain : Plain type) (registered : types.has depth type = true) :
    (Json.obj (listed type (nestAt types (depth + 2)) as)).sorted =
      (Json.obj (listed type (nestAt types (depth + 2)) bs)).sorted := by
  rw [Json.sorted_obj_iff (distinct_listed uniqueAs.distinct type _)
    (distinct_listed uniqueBs.distinct type _)]
  intro name
  have hkey := alike (memberKey type name)
  rw [innerDepth_nested (nestedKey?_memberKey plain registered name)] at hkey
  rwa [get?_listed plain, get?_listed plain, Option.map_map, Option.map_map]

variable (reconciledAs : Reconciled types depth as)

include reconciledAs

/-- Under a key that is kept the outcome is the same, whether members come to it or not. -/
theorem sorted_get?_kept (kept : nestedKey? types depth key = none) :
    (Keyed.get? key (nestEntries types depth as [])).map Json.sorted =
      (Keyed.get? key (nestEntries types depth bs [])).map Json.sorted := by
  by_cases hclaimed : types.has depth key = true ∧ Plain key
  · obtain ⟨registered, plain⟩ := hclaimed
    cases hkey : Keyed.get? key as with
    | some value =>
      obtain ⟨other, hother, hsame⟩ := alike.exists_of_get? hkey
      rw [innerDepth_kept kept] at hsame
      rw [sorted_get?_claimed uniqueAs reconciledAs registered plain (Keyed.mem_of_get? hkey),
        sorted_get?_claimed uniqueBs (alike.reconciled uniqueAs uniqueBs reconciledAs) registered
          plain (Keyed.mem_of_get? hother), hsame]
    | none =>
      have hother : Keyed.get? key bs = none := by simpa [hkey] using (alike key).symm
      have hapart {state : Keyed Json} (h : Keyed.get? key state = none) :
          ∀ e ∈ state, nestedKey? types depth e.1 = none → e.1 ≠ key := by
        rintro e he - rfl
        exact Keyed.get?_eq_none_iff.1 h (Keyed.mem_names_of_mem he)
      rw [get?_nestEntries_gather uniqueAs.distinct registered (hapart hkey),
        get?_nestEntries_gather uniqueBs.distinct registered (hapart hother),
        gather_eq uniqueAs.distinct, gather_eq uniqueBs.distinct]
      exact sorted_nonemptyEntry_congr (alike.sorted_listed uniqueAs uniqueBs plain registered) key
  · have hkey := alike key
    rw [innerDepth_kept kept] at hkey
    rwa [get?_nestEntries_unclaimed uniqueAs.distinct kept hclaimed,
      get?_nestEntries_unclaimed uniqueBs.distinct kept hclaimed, Option.map_map, Option.map_map]

theorem sorted_nestEntries : (Json.obj (nestEntries types depth as [])).sorted =
    (Json.obj (nestEntries types depth bs [])).sorted := by
  have hempty : Keyed.Distinct ([] : Keyed Json) := List.nodup_nil
  rw [Json.sorted_obj_iff (distinct_nestEntries types depth as hempty)
    (distinct_nestEntries types depth bs hempty)]
  intro key
  cases hkey : nestedKey? types depth key with
  | none => exact alike.sorted_get?_kept uniqueAs uniqueBs reconciledAs hkey
  | some parts => rw [get?_nestEntries_nested hkey, get?_nestEntries_nested hkey]

end NestAlike

/-- Settled states of one sorted form are nested to states of one sorted form. -/
theorem sorted_nestAt_congr {other : Json} (unique : value.Unique) (uniqueOther : other.Unique)
    (settled : Settled types depth value) (h : value.sorted = other.sorted) :
    (nestAt types depth value).sorted = (nestAt types depth other).sorted := by
  induction value generalizing depth other with
  | obj as ih =>
    cases other with
    | obj bs =>
      obtain ⟨reconciled, inside⟩ := settled_obj_iff.1 settled
      have hsame := (Json.sorted_obj_iff unique.distinct uniqueOther.distinct).1 h
      have halike : NestAlike types depth as bs := by
        intro key
        have hkey := hsame key
        cases ha : Keyed.get? key as with
        | none =>
          rw [ha, Option.map_none, eq_comm, Option.map_eq_none_iff] at hkey
          rw [hkey]
        | some v =>
          rw [ha, Option.map_some, eq_comm, Option.map_eq_some_iff] at hkey
          obtain ⟨w, hb, hvw⟩ := hkey
          rw [hb]
          have hmem := Keyed.mem_of_get? ha
          exact congrArg some (ih (key, v) hmem (unique.member hmem) (unique_of_get? uniqueOther hb)
            (inside (key, v) hmem) hvw.symm)
      rw [nestAt, nestAt]
      exact halike.sorted_nestEntries unique uniqueOther reconciled
    | _ => simp [Json.sorted] at h
  | _ =>
    have hother : other.members? = none := by cases other <;> simp_all [Json.sorted, Json.members?]
    rw [nestAt_of_value hother, nestAt_of_value rfl, h]

/-! ### States that depend on the order -/

theorem sorted_of_field? {v w a b : Json} (hv : v.Unique) (hw : w.Unique) (h : v.sorted = w.sorted)
    (ha : v.field? name = some a) (hb : w.field? name = some b) : a.sorted = b.sorted := by
  have hname := Json.sorted_field?_congr hv hw h name
  rwa [ha, hb, Option.map_some, Option.map_some, Option.some.injEq] at hname

theorem exists_perm_concat (h : entry ∈ state) : ∃ rest, state.Perm (rest ++ [entry]) := by
  obtain ⟨before, after, rfl⟩ := List.append_of_mem h
  refine ⟨before ++ after, List.perm_middle.trans ?_⟩
  exact (List.perm_append_singleton entry (before ++ after)).symm

theorem sorted_of_perm (unique : (Json.obj as).Unique) (h : as.Perm bs) :
    (Json.obj bs).Unique ∧ (Json.obj bs).sorted = (Json.obj as).sorted := by
  refine ⟨⟨(h.map Prod.fst).nodup_iff.1 unique.distinct, Json.uniqueMembers_iff.2 fun m hm =>
    unique.member (h.mem_iff.2 hm)⟩, ?_⟩
  exact (Json.sorted_obj_congr unique.distinct (Json.sortedMembers_perm h)).symm

theorem field?_nestEntry_kept (h : nestedKey? types depth key = none) (value : Json)
    (out : Keyed Json) : (Json.obj (nestEntry types depth (key, value) out)).field? key =
      some (nestAt types (depth + 1) value) := by
  simp [Json.field?, Json.members?, nestEntry, h, Keyed.get?_insert]

theorem field?_nestEntry_nested (h : nestedKey? types depth key = some (type, name))
    (value : Json) (out : Keyed Json) :
    ∃ group, (Json.obj (nestEntry types depth (key, value) out)).field? type = some group ∧
      group.field? name = some (nestAt types (depth + 2) value) := by
  refine ⟨.obj (Keyed.insert name (nestAt types (depth + 2) value) (membersUnder type out)), ?_, ?_⟩
  · simp [Json.field?, Json.members?, nestEntry, h, get?_insertNested]
  · simp [Json.field?, Json.members?, Keyed.get?_insert]

theorem nestAt_concat (state : Keyed Json) (entry : String × Json) :
    nestAt types depth (.obj (state ++ [entry])) =
      .obj (nestEntry types depth entry (nestEntries types depth state [])) := by
  rw [nestAt, nestEntries_append, nestEntries_cons, nestEntries]

section

variable (unique : (Json.obj state).Unique)
  (free : ∀ other : Json, other.Unique → other.sorted = (Json.obj state).sorted →
    (nestAt types depth other).sorted = (nestAt types depth (.obj state)).sorted)

include unique free

/-- A member that meets a value may stand behind it or in front of it, where it is lost. -/
theorem reconciled_of_free : Reconciled types depth state := by
  intro e he type name hkey value hvalue
  have hplain : Plain type := (memberOf?_eq_some_iff.1 (nestedKey?_eq_some_iff.1 hkey).1).2
  have hkept : nestedKey? types depth type = none := nestedKey?_of_plain types depth hplain
  obtain ⟨rest, hrest⟩ := exists_perm_concat he
  have hmem : (type, value) ∈ rest := by
    have h := hrest.mem_iff.1 hvalue
    rw [List.mem_append, List.mem_singleton] at h
    refine h.resolve_right fun heq => ?_
    rw [← heq, hkept] at hkey
    cases hkey
  obtain ⟨front, hfront⟩ := exists_perm_concat hmem
  have hperm := hrest.trans (hfront.append_right [e])
  have hswap : (front ++ [(type, value)] ++ [e]).Perm (front ++ [e] ++ [(type, value)]) := by
    rw [List.append_assoc, List.append_assoc]
    exact (List.Perm.swap _ _ []).append_left front
  obtain ⟨hbehind, hbehindSame⟩ := sorted_of_perm unique hperm
  obtain ⟨hahead, haheadSame⟩ := sorted_of_perm unique (hperm.trans hswap)
  have hsame := (free _ hbehind hbehindSame).trans (free _ hahead haheadSame).symm
  have hbehind := unique_nestAt types depth hbehind
  have hahead := unique_nestAt types depth hahead
  rw [nestAt_concat] at hbehind hahead hsame
  rw [nestAt_concat] at hsame
  obtain ⟨group, hgroup, hmember⟩ := field?_nestEntry_nested hkey e.2 _
  have hleft := sorted_of_field? hbehind hahead hsame hgroup (field?_nestEntry_kept hkept value _)
  rw [← Json.sorted_field?_congr (unique_of_get? hbehind hgroup)
    (unique_nestAt types _ (unique.member hvalue)) hleft, hmember]
  rfl

/-- What stands under a key may stand at the end, where it is not lost. -/
theorem free_inside {other : Json} (he : entry ∈ state) (hother : other.Unique)
    (h : other.sorted = entry.2.sorted) :
    (nestAt types (innerDepth types depth entry.1) other).sorted =
      (nestAt types (innerDepth types depth entry.1) entry.2).sorted := by
  obtain ⟨rest, hrest⟩ := exists_perm_concat he
  obtain ⟨hlast, hlastSame⟩ := sorted_of_perm unique hrest
  have hreplaced : (Json.obj (rest ++ [(entry.1, other)])).Unique := by
    refine ⟨by simpa [Keyed.Distinct, Keyed.names] using hlast.distinct,
      Json.uniqueMembers_iff.2 fun m hm => ?_⟩
    rcases List.mem_append.1 hm with hm | hm
    · exact hlast.member (List.mem_append_left _ hm)
    · rw [List.mem_singleton.1 hm]
      exact hother
  have hreplacedSame : (Json.obj (rest ++ [(entry.1, other)])).sorted =
      (Json.obj (rest ++ [entry])).sorted := by
    refine Json.sorted_obj_congr hreplaced.distinct (.of_eq ?_)
    simp [Json.sortedMembers_eq, h]
  have hsame := (free _ hreplaced (hreplacedSame.trans hlastSame)).trans
    (free _ hlast hlastSame).symm
  have hreplaced := unique_nestAt types depth hreplaced
  have hlast := unique_nestAt types depth hlast
  rw [nestAt_concat] at hreplaced hlast hsame
  rw [nestAt_concat] at hsame
  cases hkey : nestedKey? types depth entry.1 with
  | none =>
    rw [innerDepth_kept hkey]
    exact sorted_of_field? hreplaced hlast hsame (field?_nestEntry_kept hkey other _)
      (field?_nestEntry_kept hkey entry.2 _)
  | some parts =>
    rw [innerDepth_nested hkey]
    obtain ⟨group, hgroup, hmember⟩ := field?_nestEntry_nested hkey other _
    obtain ⟨found, hfound, hmember'⟩ := field?_nestEntry_nested hkey entry.2 _
    have hgroups := sorted_of_field? hreplaced hlast hsame hgroup hfound
    exact sorted_of_field? (unique_of_get? hreplaced hgroup) (unique_of_get? hlast hfound) hgroups
      hmember hmember'

end

theorem settled_of_free (unique : value.Unique)
    (free : ∀ other : Json, other.Unique → other.sorted = value.sorted →
      (nestAt types depth other).sorted = (nestAt types depth value).sorted) :
    Settled types depth value := by
  induction value generalizing depth with
  | obj state ih =>
    refine settled_obj_iff.2 ⟨reconciled_of_free unique free, fun e he => ?_⟩
    exact ih e he (unique.member he) fun other hother h => free_inside unique free he hother h
  | _ => exact settled_of_value rfl

/-! ### The result -/

/-- Nesting a state gives the same for every order of its keys, at any depth, exactly when members
and bare types are reconciled wherever they meet. -/
theorem nest_ignores_order_iff (types : CollectionTypes) {state : Json} (unique : state.Unique) :
    (∀ other : Json, other.Unique → other.sorted = state.sorted →
      (nest types other).sorted = (nest types state).sorted) ↔ Settled types 0 state := by
  constructor
  · exact settled_of_free unique
  · intro settled other uniqueOther h
    exact (sorted_nestAt_congr unique uniqueOther settled h.symm).symm

namespace Meeting

def collections : CollectionTypes := [(0, ["Region"])]

/-- The member stands in the value under its type as well, with its keys in another order. -/
def held : Keyed Json := [("Region:air", .obj [("gap", .null), ("heat", .bool true)]),
  ("Region", .obj [("air", .obj [("heat", .bool true), ("gap", .null)]), ("mesh", .null)])]

/-- The member does not stand in the value behind it. -/
def lost : Keyed Json := [("Region:air", .null), ("Region", .obj [("mesh", .null)])]

theorem unique_held : (Json.obj held).Unique := by
  simp [held, Json.Unique, Json.UniqueMembers, Keyed.Distinct]

theorem unique_lost : (Json.obj lost).Unique := by
  simp [lost, Json.Unique, Json.UniqueMembers, Keyed.Distinct]

theorem reconciled_held : Reconciled collections 0 held := by
  intro e he type name hkey value hvalue
  rw [held, List.mem_cons, List.mem_singleton] at he hvalue
  rcases he with rfl | rfl
  · have hparts : nestedKey? collections 0 "Region:air" = some ("Region", "air") := by
      decide +kernel
    cases hparts.symm.trans hkey
    cases hvalue.resolve_left (by simp)
    have hsame : (Json.obj [("heat", .bool true), ("gap", .null)]).sorted =
        (Json.obj [("gap", .null), ("heat", .bool true)]).sorted :=
      Json.sorted_obj_congr (by simp [Keyed.Distinct]) (List.Perm.swap _ _ [])
    exact congrArg some hsame
  · have hkept : nestedKey? collections 0 "Region" = none := by decide +kernel
    cases hkept.symm.trans hkey

theorem settled_held : Settled collections 0 (.obj held) := by
  have hbody : Settled collections 2 (.obj [("gap", .null), ("heat", .bool true)]) := by
    refine settled_of_kept (by decide +kernel) ?_
    rw [List.forall_mem_cons, List.forall_mem_singleton]
    exact ⟨settled_of_value rfl, settled_of_value rfl⟩
  have hair : Settled collections 2 (.obj [("heat", .bool true), ("gap", .null)]) := by
    refine settled_of_kept (by decide +kernel) ?_
    rw [List.forall_mem_cons, List.forall_mem_singleton]
    exact ⟨settled_of_value rfl, settled_of_value rfl⟩
  have hregions : Settled collections 1
      (.obj [("air", .obj [("heat", .bool true), ("gap", .null)]), ("mesh", .null)]) := by
    refine settled_of_kept (by decide +kernel) ?_
    rw [List.forall_mem_cons, List.forall_mem_singleton]
    exact ⟨hair, settled_of_value rfl⟩
  refine settled_obj_iff.2 ⟨reconciled_held, ?_⟩
  rw [held, List.forall_mem_cons, List.forall_mem_singleton]
  exact ⟨hbody, hregions⟩

theorem sorted_nest_lost : (nest collections (.obj lost.reverse)).sorted ≠
    (nest collections (.obj lost)).sorted := by
  have hlost : nest collections (.obj lost) = .obj [("Region", .obj [("mesh", .null)])] := rfl
  have hreverse : nest collections (.obj lost.reverse) =
      .obj [("Region", .obj [("mesh", .null), ("air", .null)])] := rfl
  rw [hlost, hreverse, ne_eq, Json.sorted_obj_iff (by simp [Keyed.Distinct])
    (by simp [Keyed.Distinct])]
  intro h
  have hregions : (Json.obj [("mesh", .null), ("air", .null)]).sorted =
      (Json.obj [("mesh", .null)]).sorted := by simpa [Keyed.get?] using h "Region"
  have hlength := (Json.sortedMembers_perm_of_sorted hregions).length_eq
  simp [Json.sortedMembers_eq] at hlength

/-- The member in front of the value is lost, the member behind it is not. -/
theorem nest_depends_on_order :
    (Json.obj lost.reverse).Unique ∧ (Json.obj lost.reverse).sorted = (Json.obj lost).sorted ∧
      nest collections (.obj lost) = .obj [("Region", .obj [("mesh", .null)])] ∧
      nest collections (.obj lost.reverse) =
        .obj [("Region", .obj [("mesh", .null), ("air", .null)])] ∧
      (nest collections (.obj lost.reverse)).sorted ≠ (nest collections (.obj lost)).sorted := by
  obtain ⟨hreverse, hsame⟩ := sorted_of_perm unique_lost (List.reverse_perm lost).symm
  exact ⟨hreverse, hsame, rfl, rfl, sorted_nest_lost⟩

/-- Either order gives the same when the member is held by the value, but not when it is lost. -/
theorem nest_ignores_order_of_held :
    (Json.obj held).Unique ∧ Settled collections 0 (.obj held) ∧
      (nest collections (.obj held.reverse)).sorted = (nest collections (.obj held)).sorted ∧
      (Json.obj lost).Unique ∧ ¬Settled collections 0 (.obj lost) := by
  refine ⟨unique_held, settled_held, ?_, unique_lost, fun settled => sorted_nest_lost ?_⟩
  · obtain ⟨hreverse, hsame⟩ := sorted_of_perm unique_held (List.reverse_perm held).symm
    exact (nest_ignores_order_iff collections unique_held).2 settled_held _ hreverse hsame
  · obtain ⟨hreverse, hsame⟩ := sorted_of_perm unique_lost (List.reverse_perm lost).symm
    exact (nest_ignores_order_iff collections unique_lost).2 settled _ hreverse hsame

end Meeting

end SettingsTree.Projection
