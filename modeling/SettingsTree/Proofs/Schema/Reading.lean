import SettingsTree.Proofs.Keyed
import SettingsTree.Proofs.Ordering
import SettingsTree.Proofs.Pointwise
import SettingsTree.Proofs.Schema.Format

/-! # What reading an entry finds

Each reader of a part of an entry succeeds exactly when the entry has that part in the format, and
then returns it. The paths that the readers are given only show in their faults.
-/

namespace SettingsTree

namespace Entry

/-- What the fields of an entry must be for each mark. -/
def HasMark (entry : Entry) : Mark → Prop
  | .command => entry.IsCommand
  | .collection => entry.IsCollection
  | .leaf tag => entry.IsLeaf tag
  | .unmarked => entry.IsFixed

/-- An item is a member of a section together with its ordinal. -/
structure IsItem (member : String × Json) (item : Item) : Prop where
  name : member.1 = item.name
  value : member.2 = .obj item.entry
  ordinal : HasOrdinal item.entry item.ordinal

/-- A section lists items, in document order. -/
def Lists (part : Section) (entry : Entry) (items : List Item) : Prop :=
  (Lacks part.key entry ∧ items = []) ∨
    ∃ members, Keyed.get? part.key entry = some (.obj members) ∧ List.Forall₂ IsItem members items

/-- The same items, in the order of their ordinals; equal ordinals stay in document order. -/
structure InOrder (listed items : List Item) : Prop where
  perm : items.Perm listed
  sorted : items.Pairwise fun a b => a.ordinal ≤ b.ordinal
  stable : ∀ ordinal, items.filter (fun i => i.ordinal = ordinal) =
    listed.filter fun i => i.ordinal = ordinal

theorem ofJson_eq_ok_iff {path : String} {value : Json} {entry : Entry} :
    ofJson path value = .ok entry ↔ value = .obj entry := by
  cases value <;> simp [ofJson]

/-- Without the two flags it is the type that decides. -/
theorem type_eq_ok_iff {path : String} {entry : Entry} {found : Mark}
    (command : ¬entry.IsCommand) (unflagged : entry.Unflagged) :
    (match Keyed.get? "type" entry with
      | none => Except.ok Mark.unmarked
      | some (.str tag) => .ok (.leaf tag)
      | some _ => .error (SchemaError.invalidField path "type")) = .ok found ↔
      entry.HasMark found := by
  have hcollection := unflagged.not_collection
  cases ht : Keyed.get? "type" entry with
  | none => cases found <;> simp [HasMark, IsLeaf, IsFixed, command, unflagged, hcollection, ht]
  | some value =>
    cases value <;> cases found <;>
      simp [HasMark, IsLeaf, IsFixed, command, unflagged, hcollection, ht]

theorem mark_eq_ok_iff {path : String} {entry : Entry} {found : Mark} :
    mark path entry = .ok found ↔ entry.HasMark found := by
  by_cases hq : entry.IsCommand
  · have hmark : mark path entry = .ok .command := by
      unfold mark
      exact if_pos hq
    rw [hmark]
    cases found <;> simp [HasMark, IsCollection, IsLeaf, IsFixed, hq]
  · unfold mark
    rw [if_neg (show ¬Keyed.has "isQuery" entry = true from hq)]
    dsimp only
    cases hn : Keyed.get? "isNamed" entry with
    | none => exact type_eq_ok_iff hq (by simp [Unflagged, Lacks, hn])
    | some value =>
      cases value with
      | null => exact type_eq_ok_iff hq (by simp [Unflagged, Lacks, hn])
      | bool flag =>
        cases flag with
        | false => exact type_eq_ok_iff hq (by simp [Unflagged, hn])
        | true =>
          cases found <;> simp [HasMark, IsCollection, IsLeaf, IsFixed, Unflagged, Lacks, hq, hn]
      | _ =>
        cases found <;> simp [HasMark, IsCollection, IsLeaf, IsFixed, Unflagged, Lacks, hq, hn]

theorem int64?_eq_some_iff {value : Json} {ordinal : Int64} :
    value.int64? = some ordinal ↔ value = .int ordinal.toInt := by
  cases value with
  | num number =>
    cases number with
    | int n =>
      simp only [Json.int64?, Number.int64?, Json.int, Option.ite_none_right_eq_some,
        Option.some.injEq, Json.num.injEq, Number.int.injEq]
      constructor
      · rintro ⟨⟨hlow, hhigh⟩, rfl⟩
        exact (Int64.toInt_ofInt_of_le hlow (Int.lt_add_one_of_le hhigh)).symm
      · rintro rfl
        exact ⟨⟨ordinal.minValue_le_toInt, ordinal.toInt_le⟩, ordinal.ofInt_toInt⟩
    | double x => simp [Json.int64?, Number.int64?, Json.int]
  | _ => simp [Json.int64?, Json.int]

theorem ordinal_eq_ok_iff {path : String} {entry : Entry} {found : Int64} :
    ordinal path entry = .ok found ↔ entry.HasOrdinal found := by
  unfold ordinal HasOrdinal Lacks
  cases ho : Keyed.get? "ordinal" entry with
  | none => simp [eq_comm]
  | some value =>
    cases value with
    | null => simp [Json.int, eq_comm]
    | _ =>
      simp only [Option.some.injEq, reduceCtorEq, or_self, false_and, false_or,
        ← int64?_eq_some_iff]
      split <;> simp_all

theorem HasOrdinal.unique {entry : Entry} {ordinal found : Int64} (h : entry.HasOrdinal ordinal)
    (h' : entry.HasOrdinal found) : ordinal = found :=
  eq_of_eq_ok ((@ordinal_eq_ok_iff "" _ _).2 h) (ordinal_eq_ok_iff.2 h')

theorem item_eq_ok_iff {path : String} {member : String × Json} {found : Item} :
    item path member = .ok found ↔ IsItem member found := by
  simp only [item, bind_eq_ok_iff, ofJson_eq_ok_iff, ordinal_eq_ok_iff, pure_eq_ok_iff]
  constructor
  · rintro ⟨entry, hvalue, ordinal, hordinal, rfl⟩
    exact ⟨rfl, hvalue, hordinal⟩
  · rintro ⟨hname, hvalue, hordinal⟩
    exact ⟨found.entry, hvalue, found.ordinal, hordinal, by rw [hname]⟩

theorem items_eq_ok_iff {part : Section} {path : String} {entry : Entry} {found : List Item} :
    items part path entry = .ok found ↔ Lists part entry found := by
  unfold items Lists Lacks
  cases hs : Keyed.get? part.key entry with
  | none => simp [eq_comm]
  | some value =>
    cases value with
    | null => simp [eq_comm]
    | obj members => simp [mapM_eq_ok_iff, item_eq_ok_iff]
    | _ => simp

theorem Lists.unique {part : Section} {entry : Entry} {listed found : List Item}
    (h : Lists part entry listed) (h' : Lists part entry found) : listed = found :=
  eq_of_eq_ok ((@items_eq_ok_iff part "" _ _).2 h) (items_eq_ok_iff.2 h')

theorem precedes_total (a b : Item) : precedes a b || precedes b a := by
  simpa [precedes] using Int64.le_total a.ordinal b.ordinal

theorem precedes_trans (a b c : Item) (hab : precedes a b) (hbc : precedes b c) :
    precedes a c := by
  simp only [precedes, decide_eq_true_eq] at *
  exact Int64.le_trans hab hbc

theorem tied_ordinal {α : Type} (ordinal : α → Int64) (a : α) :
    tied (fun a b => decide (ordinal a ≤ ordinal b)) a =
      fun b => decide (ordinal b = ordinal a) := by
  funext b
  rw [tied, Bool.eq_iff_iff, Bool.and_eq_true, decide_eq_true_eq, decide_eq_true_eq,
    decide_eq_true_eq]
  constructor
  · rintro ⟨hab, hba⟩
    exact Int64.le_antisymm hba hab
  · intro h
    rw [h]
    exact ⟨Int64.le_refl _, Int64.le_refl _⟩

theorem sortOn_inOrder (listed : List Item) : InOrder listed (sortOn precedes listed) where
  perm := sortOn_perm _ _
  sorted := by
    simpa [precedes] using sortOn_pairwise precedes_total precedes_trans listed
  stable ordinal := sortOn_filter (fun a b ha hb => by
    rw [decide_eq_true_eq] at ha hb
    rw [precedes, ha, hb, decide_eq_true_eq]
    exact Int64.le_refl _) listed

theorem inOrder_iff {listed items : List Item} :
    InOrder listed items ↔ items = sortOn precedes listed := by
  constructor
  · intro h
    have hsorted := sortOn_inOrder listed
    have hrefl (a : Item) : precedes a a := by simp [precedes]
    have hitems : items.Pairwise fun a b => precedes a b := by simpa [precedes] using h.sorted
    refine eq_of_pairwise_of_filter hrefl hitems ?_ fun c _ => ?_
    · simpa [precedes] using hsorted.sorted
    · have htied : tied precedes c = fun i => decide (i.ordinal = c.ordinal) :=
        tied_ordinal Item.ordinal c
      rw [htied, h.stable, hsorted.stable]
  · rintro rfl
    exact sortOn_inOrder listed

/-- What a section lists, in the order in which it is read. -/
def Reads (part : Section) (entry : Entry) (items : List Item) : Prop :=
  ∃ listed, Lists part entry listed ∧ InOrder listed items

theorem Lists.reads {part : Section} {entry : Entry} {listed : List Item}
    (h : Lists part entry listed) : Reads part entry (sortOn precedes listed) :=
  ⟨listed, h, sortOn_inOrder listed⟩

theorem sortedItems_eq_ok_iff {part : Section} {path : String} {entry : Entry}
    {found : List Item} : sortedItems part path entry = .ok found ↔ Reads part entry found := by
  simp only [sortedItems, map_eq_ok_iff, items_eq_ok_iff, Reads, inOrder_iff, eq_comm (a := found)]

theorem smallerItems_map (part : Section) (path : String) (entry : Entry) :
    (smallerItems part path entry).map (List.map Subtype.val) = sortedItems part path entry := by
  unfold smallerItems
  split
  · next h => simp [sortedItems, h, Except.map]
  · next found h =>
    have hsorted : sortedItems part path entry = .ok (sortOn precedes found) := by
      simp [sortedItems, h, Except.map]
    rw [hsorted]
    simp only [Except.map, ← sortOn_map, List.map_map]
    congr 2
    exact List.attach_map_subtype_val found

theorem reads_iff_smallerItems (path : String) {part : Section} {entry : Entry}
    {found : List Item} :
    Reads part entry found ↔
      ∃ items, smallerItems part path entry = .ok items ∧ items.map Subtype.val = found := by
  rw [← @sortedItems_eq_ok_iff part path, ← smallerItems_map, map_eq_ok_iff]

theorem strings?_eq_some_iff {value : Json} {names : List String} :
    value.strings? = some names ↔ value = .arr (names.map .str) := by
  cases value with
  | arr items =>
    simp only [Json.strings?, Json.arr.injEq]
    induction items generalizing names with
    | nil => cases names <;> simp
    | cons item rest ih =>
      rw [List.mapM_cons]
      cases hrest : rest.mapM Json.string? with
      | none =>
        have hne : ∀ names : List String, rest ≠ names.map .str := fun names h => by
          simpa [hrest] using ih.2 h
        cases item <;> cases names <;> simp [Json.string?, hne]
      | some found =>
        rw [(@ih found).1 hrest]
        cases item <;> cases names <;> simp [Json.string?, List.map_inj_right]
  | _ => simp [Json.strings?]

theorem essentials_eq_ok_iff {path : String} {entry : Entry} {names : List String} :
    essentials path entry = .ok names ↔ entry.HasEssentials names := by
  unfold essentials HasEssentials Lacks
  cases he : Keyed.get? "essentialArgs" entry with
  | none => simp [eq_comm]
  | some value =>
    cases value with
    | null => simp [eq_comm]
    | _ =>
      simp only [Option.some.injEq, reduceCtorEq, or_self, false_and, false_or,
        ← strings?_eq_some_iff]
      split <;> simp_all

theorem HasEssentials.unique {entry : Entry} {names found : List String}
    (h : entry.HasEssentials names) (h' : entry.HasEssentials found) : names = found :=
  eq_of_eq_ok ((@essentials_eq_ok_iff "" _ _).2 h) (essentials_eq_ok_iff.2 h')

theorem isQuery_eq_ok_iff {path : String} {entry : Entry} {query : Bool}
    (command : entry.IsCommand) : isQuery path entry = .ok query ↔ entry.HasQueryFlag query := by
  unfold isQuery HasQueryFlag
  cases hq : Keyed.get? "isQuery" entry with
  | none => simp [IsCommand, Keyed.has, hq] at command
  | some value => cases value <;> simp [eq_comm]

theorem HasQueryFlag.isCommand {entry : Entry} {query : Bool} (h : entry.HasQueryFlag query) :
    entry.IsCommand := by
  rcases h with h | ⟨h, -⟩ <;> simp [IsCommand, Keyed.has, h]

theorem HasQueryFlag.unique {entry : Entry} {query found : Bool} (h : entry.HasQueryFlag query)
    (h' : entry.HasQueryFlag found) : query = found :=
  eq_of_eq_ok ((@isQuery_eq_ok_iff "" _ _ h.isCommand).2 h)
    ((isQuery_eq_ok_iff h.isCommand).2 h')

end Entry

end SettingsTree
