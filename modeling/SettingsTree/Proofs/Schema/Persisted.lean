import SettingsTree.Proofs.Json.ReadBack
import SettingsTree.Proofs.Keyed
import SettingsTree.Proofs.Pointwise
import SettingsTree.Proofs.Schema.Translation
import SettingsTree.Schema.Persisted

/-! # Reading back persisted schemas

Each kind of position is written under a tag of its own, before its shape, so the reader knows what
it reads, and it opens as many arrays and objects as the document has. A tree that was written is
therefore read back unchanged, wherever it comes from, as long as its document does not nest deeper
than the reader goes.
-/

namespace SettingsTree

namespace Json

theorem depths_le_iff {items : List Json} {room : Nat} :
    depths items ≤ room ↔ ∀ item ∈ items, item.depth ≤ room := by
  induction items with
  | nil => simp [depths]
  | cons item rest ih => rw [depths, Nat.max_le, ih, List.forall_mem_cons]

theorem exact_int64 (value : Int64) : (int value.toInt).Exact := by
  have hlow := value.le_toInt
  have hhigh := value.toInt_lt
  exact Number.int_exact (by omega) (by omega)

end Json

namespace Draft

theorem field?_memberDrafts {members : Keyed Json} (distinct : Keyed.Distinct members)
    (name : String) :
    field? name (Json.memberDrafts members) = some ((Keyed.get? name members).map Json.draft) := by
  induction members with
  | nil => rfl
  | cons member rest ih =>
    obtain ⟨hfirst, hrest⟩ := List.nodup_cons.1 distinct
    rw [Json.memberDrafts, field?, ih hrest, Keyed.get?_cons]
    by_cases hname : member.1 = name
    · rw [hname] at hfirst
      simp [hname, Keyed.get?_eq_none_iff.2 hfirst]
    · simp [hname]

theorem record?_draft {members : Keyed Json} (names : List String)
    (hnames : Keyed.names members = names) (distinct : names.Nodup) :
    (Json.obj members).draft.record? names =
      some (members.map fun member => some member.2.draft) := by
  subst hnames
  refine (mapM_eq_some fun name _ => field?_memberDrafts distinct name).trans ?_
  rw [Option.some.injEq, Keyed.names, List.map_map]
  refine List.map_congr_left fun member hmember => ?_
  rw [Function.comp_apply, Keyed.get?_of_mem distinct hmember, Option.map_some]

theorem int64?_draft (value : Int64) : (Json.int value.toInt).draft.int64? = some value := by
  have hlow := value.minValue_le_toInt
  have hhigh := value.toInt_le
  rw [Json.int, Json.draft, int64?, Option.bind_some, Number.int64?, if_pos ⟨hlow, hhigh⟩,
    Int64.ofInt_toInt]

theorem strings?_draft (texts : List String) :
    (Json.arr (texts.map .str)).draft.strings? = some texts := by
  rw [Json.draft, Json.itemDrafts_eq, strings?, List.mapM_map, List.mapM_map]
  exact (mapM_eq_some fun text _ => rfl).trans (by rw [List.map_id'])

end Draft

namespace Descriptor

variable {label : Label} {tag : String} {shape : Json} {room : Nat}

theorem toJsonAll_eq (ds : List Descriptor) : toJsonAll ds = ds.map toJson := by
  induction ds with
  | nil => rfl
  | cons d rest ih => rw [toJsonAll, ih, List.map_cons]

theorem frame_depth : (frame label tag shape).depth = shape.depth + 2 := by
  simp [frame, Json.depth, Json.memberDepths, Json.int]

theorem frame_exact (h : shape.Exact) : (frame label tag shape).Exact :=
  ⟨trivial, trivial, Json.exact_int64 label.ordinal, ⟨trivial, h, trivial⟩, trivial⟩

/-- Only ordinals are numbers in the document of a descriptor. -/
theorem toJson_exact (d : Descriptor) : d.toJson.Exact := by
  have hall {ds : List Descriptor} (h : ∀ d ∈ ds, d.toJson.Exact) :
      (Json.arr (toJsonAll ds)).Exact := by
    rw [toJsonAll_eq, Json.Exact, Json.exactItems_iff]
    exact List.forall_mem_map.2 h
  induction d with
  | container label properties children commands hproperties hchildren hcommands =>
    exact frame_exact ⟨hall hproperties, hall hchildren, hall hcommands, trivial⟩
  | collection label template ih => exact frame_exact ih
  | leaf label primitive => exact frame_exact trivial
  | command label arguments essential pathArgument query harguments =>
    have hessential : (Json.arr (essential.map .str)).Exact := by
      rw [Json.Exact, Json.exactItems_iff]
      exact List.forall_mem_map.2 fun _ _ => trivial
    refine frame_exact ⟨hall harguments, hessential, ?_, trivial, trivial⟩
    cases pathArgument <;> trivial

/-- A frame is read as its label, and as what lives there. -/
theorem read?_frame :
    read? false (room + 1) (frame label tag shape).draft =
      readKind? false room label (Json.obj [("kind", .str tag), ("shape", shape)]).draft := by
  rw [read?, frame, Draft.record?_draft fields rfl (by decide)]
  simp [Draft.int64?_draft, Json.draft, Draft.string?]

theorem framed?_tagged :
    framed? false room (Json.obj [("kind", .str tag), ("shape", shape)]).draft =
      some ⟨false, tag, shape.draft⟩ := by
  simp [framed?, Json.draft, Json.memberDrafts, Draft.field?, shapeComesFirst, word?]

theorem read?_container : read? false (room + 2) (frame label "fixed_container" shape).draft =
    readContainer? false room label shape.draft := by
  rw [read?_frame, readKind?, framed?_tagged]
  rfl

theorem read?_collection : read? false (room + 2) (frame label "named_collection" shape).draft =
    (read? false room shape.draft).map (.collection label) := by
  rw [read?_frame, readKind?, framed?_tagged]
  exact Option.map_eq_bind.symm

theorem read?_leaf (primitive : Primitive) :
    read? false (room + 2) (frame label "primitive_leaf" (.str primitive.tag)).draft =
      some (.leaf label primitive) := by
  rw [read?_frame, readKind?, framed?_tagged]
  cases primitive <;> rfl

theorem read?_command : read? false (room + 2) (frame label "command" shape).draft =
    readCommand? false room label shape.draft := by
  rw [read?_frame, readKind?, framed?_tagged]
  rfl

theorem readAll?_toJsonAll {ds : List Descriptor}
    (h : ∀ d ∈ ds, ∀ room, d.toJson.depth ≤ room → read? false room d.toJson.draft = some d)
    (fits : (Json.arr (toJsonAll ds)).depth ≤ room) :
    readAll? false room (Json.arr (toJsonAll ds)).draft = some ds := by
  cases room with
  | zero => simp [Json.depth] at fits
  | succ room =>
    rw [Json.depth, Nat.add_le_add_iff_right, toJsonAll_eq, Json.depths_le_iff,
      List.forall_mem_map] at fits
    rw [toJsonAll_eq, Json.draft, Json.itemDrafts_eq, readAll?, List.mapM_map, List.mapM_map]
    exact (mapM_eq_some fun d hd => h d hd room (fits d hd)).trans (by rw [List.map_id'])

theorem readContainer?_draft {properties children commands : List Descriptor} {ps cs ms : Json}
    (hproperties : readAll? false room ps.draft = some properties)
    (hchildren : readAll? false room cs.draft = some children)
    (hcommands : readAll? false room ms.draft = some commands) :
    readContainer? false (room + 1) label
        (Json.obj [("properties", ps), ("children", cs), ("commands", ms)]).draft =
      some (.container label properties children commands) := by
  rw [readContainer?, Draft.record?_draft ["properties", "children", "commands"] rfl
    (by decide)]
  simp [hproperties, hchildren, hcommands]

def optionalText : Option String → Json
  | some text => .str text
  | none => .null

theorem toJson_command (arguments : List Descriptor) (essential : List String)
    (pathArgument : Option String) (query : Bool) :
    (command label arguments essential pathArgument query).toJson =
      frame label "command" (.obj [
        ("arguments", .arr (toJsonAll arguments)), ("essential", .arr (essential.map .str)),
        ("path_argument", optionalText pathArgument), ("query", .bool query)]) := by
  cases pathArgument <;> rw [toJson, optionalText]

theorem readCommand?_draft {arguments : List Descriptor} {as : Json} (essential : List String)
    (pathArgument : Option String) (query : Bool)
    (harguments : readAll? false (room + 1) as.draft = some arguments) :
    readCommand? false (room + 2) label
        (Json.obj [("arguments", as), ("essential", .arr (essential.map .str)),
          ("path_argument", optionalText pathArgument), ("query", .bool query)]).draft =
      some (.command label arguments essential pathArgument query) := by
  have hpath : Draft.optionalString? (some (optionalText pathArgument).draft) =
      some pathArgument := by
    cases pathArgument <;> rfl
  have hquery : (Json.bool query).draft.bool? = some query := rfl
  rw [readCommand?, Draft.record?_draft
    ["arguments", "essential", "path_argument", "query"] rfl (by decide)]
  simp [harguments, Draft.strings?_draft, hpath, hquery]

/-- A position is read back where its document fits. -/
theorem read?_toJson (d : Descriptor) (room : Nat) (fits : d.toJson.depth ≤ room) :
    read? false room d.toJson.draft = some d := by
  induction d generalizing room with
  | container label properties children commands hproperties hchildren hcommands =>
    rw [toJson, frame_depth] at fits
    simp only [Json.depth, Json.memberDepths] at fits
    obtain ⟨room, rfl⟩ := Nat.exists_eq_add_of_le' (show 3 ≤ room by omega)
    rw [toJson, read?_container]
    apply readContainer?_draft
    · exact readAll?_toJsonAll hproperties (by rw [Json.depth]; omega)
    · exact readAll?_toJsonAll hchildren (by rw [Json.depth]; omega)
    · exact readAll?_toJsonAll hcommands (by rw [Json.depth]; omega)
  | collection label template ih =>
    rw [toJson, frame_depth] at fits
    obtain ⟨room, rfl⟩ := Nat.exists_eq_add_of_le' (show 2 ≤ room by omega)
    rw [toJson, read?_collection, ih room (by omega), Option.map_some]
  | leaf label primitive =>
    rw [toJson, frame_depth] at fits
    obtain ⟨room, rfl⟩ := Nat.exists_eq_add_of_le' (show 2 ≤ room by omega)
    rw [toJson, read?_leaf]
  | command label arguments essential pathArgument query harguments =>
    rw [toJson_command, frame_depth] at fits
    simp only [Json.depth, Json.memberDepths] at fits
    obtain ⟨room, rfl⟩ := Nat.exists_eq_add_of_le' (show 4 ≤ room by omega)
    rw [toJson_command, read?_command]
    apply readCommand?_draft
    exact readAll?_toJsonAll harguments (by rw [Json.depth]; omega)

end Descriptor

namespace Compiled

theorem toJson_exact (schema : Compiled) : schema.toJson.Exact :=
  ⟨trivial, trivial, trivial, schema.root.toJson_exact, trivial⟩

theorem read?_toJson (schema : Compiled) (room : Nat) (fits : schema.toJson.depth ≤ room) :
    read? room schema.toJson.draft = some schema := by
  simp only [toJson, Json.depth, Json.memberDepths] at fits
  obtain ⟨room, rfl⟩ := Nat.exists_eq_add_of_le' (show 1 ≤ room by omega)
  rw [read?, toJson, Draft.record?_draft
    ["fingerprint", "options", "root_type", "root"] rfl (by decide)]
  simp [schema.root.read?_toJson room (by omega), Json.draft, Draft.string?]

theorem read?_toText (schema : Compiled) (room : Nat) (fits : schema.toJson.depth ≤ room) :
    (Draft.ofText? schema.toText).bind (read? room) = some schema := by
  rw [toText, Draft.ofText?_pretty schema.toJson_exact, Option.bind_some,
    schema.read?_toJson room fits]

/-- Whatever tree is persisted, it is read back unchanged if its document does not nest too deep. -/
theorem ofText_toText (schema : Compiled) (fits : schema.toJson.depth ≤ 127) :
    ofText schema.toText = .ok schema := by
  rw [ofText, schema.read?_toText maxDepth fits]

namespace Irregular

/-- A tree that no raw schema compiles to: a command among the properties, a leaf among the
children, a collection of collections of leaves, and labels of all kinds. -/
def schema : Compiled where
  digest := ""
  options := "\"\\"
  rootType := "\n\t\x01"
  root := .container ⟨"é😀", "", Int64.minValue⟩
    [.command ⟨"m", "m", Int64.maxValue⟩ [.collection ⟨"/", "", 0⟩ (.leaf ⟨"", "", -1⟩ .dictList)]
      ["p", "p"] (some "") true]
    [.leaf ⟨"c", "c", 7⟩ .realVector,
      .collection ⟨"t", "t", 0⟩ (.collection ⟨"u", "u", 0⟩ (.leaf ⟨"v", "v", 0⟩ .logical))]
    [.command ⟨"n", "n", 0⟩ [] [] none false, .container ⟨"d", "d", 0⟩ [] [] []]

end Irregular

theorem ofText_toText_irregular :
    Irregular.schema.toJson.depth ≤ 127 ∧
      ofText Irregular.schema.toText = .ok Irregular.schema := by
  have fits : Irregular.schema.toJson.depth ≤ 127 := by decide
  exact ⟨fits, ofText_toText Irregular.schema fits⟩

end Compiled

end SettingsTree
