import SettingsTree.Proofs.Name.Siblings
import SettingsTree.Proofs.Schema.Reading
import SettingsTree.Schema.Compile

/-! # What compiling an entry yields

A position describes an entry when it has the entry's name and ordinal, is of the entry's kind, and
describes every entry of its sections by exactly one member, in the order of the ordinals. Compiling
an entry succeeds with a position exactly when the position describes the entry. Everything that is
known of compiled schemas is derived from this equivalence.
-/

namespace SettingsTree

open Entry Name

namespace Descriptor

/-- Descriptors by what they consist of: whatever holds of the members of a container, of a template
and of the arguments of a command carries over to the whole. -/
@[elab_as_elim, induction_eliminator]
theorem induct {motive : Descriptor → Prop}
    (container : ∀ label properties children commands, (∀ p ∈ properties, motive p) →
      (∀ c ∈ children, motive c) → (∀ m ∈ commands, motive m) →
      motive (.container label properties children commands))
    (collection : ∀ label template, motive template → motive (.collection label template))
    (leaf : ∀ label primitive, motive (.leaf label primitive))
    (command : ∀ label arguments essential pathArgument query, (∀ a ∈ arguments, motive a) →
      motive (.command label arguments essential pathArgument query))
    (d : Descriptor) : motive d :=
  @Descriptor.rec motive (fun ds => ∀ d ∈ ds, motive d) container collection leaf command
    (fun _ h => absurd h List.not_mem_nil)
    (fun _ _ hd hds _ hmem => (List.mem_cons.1 hmem).elim (fun h => h ▸ hd) (hds _)) d

end Descriptor

/-- A property or an argument describes a primitive setting. -/
def DescribesLeaf (d : Descriptor) (item : Item) : Prop :=
  ∃ localName tag primitive, item.entry.IsLeaf tag ∧
    Primitive.ofRemoteTag? tag = some primitive ∧
    d = .leaf ⟨item.name, localName, item.ordinal⟩ primitive

/-- A command describes an entry. Of the arguments that the entry lists, the one that receives the
path is only named, and all others are described; the essential arguments are those that the entry
names, except the one that receives the path. -/
def DescribesCommand (options : Options) (d : Descriptor) (item : Item) : Prop :=
  ∃ localName arguments listed names query,
    Reads .arguments item.entry listed ∧ item.entry.HasEssentials names ∧
    item.entry.HasQueryFlag query ∧
    (∀ name ∈ names, name ∈ listed.map Item.name) ∧
    List.Forall₂ DescribesLeaf arguments (listed.filter (·.name ≠ options.pathArgument)) ∧
    arguments.map Descriptor.localName = distinguishAll
      ((listed.filter (·.name ≠ options.pathArgument)).map fun a =>
        options.naming.localName a.name) ∧
    d = .command ⟨item.name, localName, item.ordinal⟩ arguments
      (names.filter (· ≠ options.pathArgument))
      (if options.pathArgument ∈ listed.map Item.name then some options.pathArgument else none)
      query

/-- The members of a container describe the sections of an entry, and receive their local names
together. What it means for the children is given by `inside`. -/
def DescribesMembers (options : Options) (properties children commands : List Descriptor)
    (inside : List Item → Prop) (entry : Entry) : Prop :=
  ∃ parameters inner actions,
    Reads .parameters entry parameters ∧ Reads .children entry inner ∧
    Reads .commands entry actions ∧
    List.Forall₂ DescribesLeaf properties parameters ∧ inside inner ∧
    List.Forall₂ (DescribesCommand options) commands actions ∧
    (properties ++ children ++ commands).map Descriptor.localName = distinguishAll
      ((parameters ++ inner ++ actions).map fun i => options.naming.localName i.name)

mutual
/-- A container or a collection describes an entry. The template of a collection has the label of
the collection. -/
def Describes (options : Options) : Descriptor → Item → Prop
  | .container label properties children commands, item =>
    label.remote = item.name ∧ label.ordinal = item.ordinal ∧ item.entry.IsFixed ∧
      DescribesMembers options properties children commands (DescribesAll options children)
        item.entry
  | .collection label (.container inner properties children commands), item =>
    label.remote = item.name ∧ label.ordinal = item.ordinal ∧ item.entry.IsCollection ∧
      inner = label ∧
      DescribesMembers options properties children commands (DescribesAll options children)
        item.entry
  | _, _ => False
def DescribesAll (options : Options) : List Descriptor → List Item → Prop
  | [], [] => True
  | d :: ds, item :: items => Describes options d item ∧ DescribesAll options ds items
  | _, _ => False
end

theorem describesAll_iff {options : Options} {ds : List Descriptor} {items : List Item} :
    DescribesAll options ds items ↔ List.Forall₂ (Describes options) ds items := by
  induction ds generalizing items with
  | nil => cases items <;> simp [DescribesAll]
  | cons d ds ih => cases items <;> simp [DescribesAll, ih]

theorem Describes.label_eq {options : Options} {d : Descriptor} {item : Item}
    (h : Describes options d item) : d.label = ⟨item.name, d.localName, item.ordinal⟩ := by
  unfold Describes at h
  split at h
  · rw [← h.1, ← h.2.1]
    rfl
  · rw [← h.1, ← h.2.1]
    rfl
  · exact h.elim

theorem Describes.remote {options : Options} {d : Descriptor} {item : Item}
    (h : Describes options d item) : d.remote = item.name := congrArg Label.remote h.label_eq

def shaped (found : Mark) (label : Label) (properties children commands : List Descriptor) :
    Descriptor :=
  if found = .collection then .collection label (.container label properties children commands)
  else .container label properties children commands

theorem describes_iff_shaped {options : Options} {d : Descriptor} {label : Label}
    {entry : Entry} :
    (Describes options d ⟨label.remote, entry, label.ordinal⟩ ∧ d.label = label) ↔
      ∃ found properties children commands, entry.HasMark found ∧
        (found = .unmarked ∨ found = .collection) ∧
        DescribesMembers options properties children commands (DescribesAll options children)
          entry ∧
        d = shaped found label properties children commands := by
  constructor
  · rintro ⟨hd, rfl⟩
    cases d with
    | container label properties children commands =>
      obtain ⟨-, -, hmark, hmembers⟩ := hd
      exact ⟨.unmarked, properties, children, commands, hmark, Or.inl rfl, hmembers, rfl⟩
    | collection label template =>
      cases template with
      | container inner properties children commands =>
        obtain ⟨-, -, hmark, rfl, hmembers⟩ := hd
        exact ⟨.collection, properties, children, commands, hmark, Or.inr rfl, hmembers, rfl⟩
      | _ => exact hd.elim
    | _ => exact hd.elim
  · rintro ⟨found, properties, children, commands, hmark, rfl | rfl, hmembers, rfl⟩
    · exact ⟨⟨rfl, rfl, hmark, hmembers⟩, rfl⟩
    · exact ⟨⟨rfl, rfl, hmark, rfl, hmembers⟩, rfl⟩

theorem forall₂_zip_iff {ι : Type} {R : Descriptor → ι → Prop} {locals : List String}
    {items : List ι} {ds : List Descriptor} (h : items.length ≤ locals.length) :
    List.Forall₂ (fun a d => R d a.2 ∧ d.localName = a.1) (locals.zip items) ds ↔
      List.Forall₂ R ds items ∧ ds.map Descriptor.localName = locals.take items.length := by
  induction items generalizing locals ds with
  | nil => cases ds <;> simp
  | cons item items ih =>
    cases locals with
    | nil => simp at h
    | cons name locals =>
      cases ds with
      | nil => simp
      | cons d ds =>
        simp only [List.zip_cons_cons, List.forall₂_cons, ih (Nat.le_of_succ_le_succ h),
          List.map_cons, List.length_cons, List.take_succ_cons, List.cons.injEq]
        tauto

namespace Compile

theorem leaf_eq_ok_iff {path localName : String} {item : Item} {d : Descriptor} :
    leaf path localName item = .ok d ↔ DescribesLeaf d item ∧ d.localName = localName := by
  simp only [leaf, bind_eq_ok_iff, mark_eq_ok_iff]
  constructor
  · rintro ⟨found, hfound, h⟩
    cases found with
    | leaf tag =>
      dsimp only at h
      split at h
      · next primitive hprimitive =>
        rw [pure_eq_ok_iff] at h
        subst h
        exact ⟨⟨localName, tag, primitive, hfound, hprimitive, rfl⟩, rfl⟩
      · simp at h
    | _ => simp at h
  · rintro ⟨⟨_, tag, primitive, hleaf, hprimitive, rfl⟩, rfl⟩
    exact ⟨.leaf tag, hleaf, by simp [hprimitive, Descriptor.localName, Descriptor.label]⟩

theorem leaves_eq_ok_iff {path : String} {locals : List String} {items : List Item}
    {ds : List Descriptor} (h : items.length ≤ locals.length) :
    ((locals.zip items).mapM fun a => leaf path a.1 a.2) = .ok ds ↔
      List.Forall₂ DescribesLeaf ds items ∧
        ds.map Descriptor.localName = locals.take items.length := by
  simp only [mapM_eq_ok_iff, leaf_eq_ok_iff, forall₂_zip_iff h]

theorem undeclared?_eq_none_iff {supplied : Option String} {declared essential : List String} :
    undeclared? supplied declared essential = none ↔
      ∀ name ∈ essential, some name = supplied ∨ name ∈ declared := by
  simp [undeclared?, List.find?_eq_none, or_iff_not_imp_left]

theorem supplied_eq (argument : String) (listed : List Item) :
    (if listed.any (·.name = argument) then some argument else none) =
      if argument ∈ listed.map Item.name then some argument else none := by
  simp [List.any_eq_true]

/-- A name that is essential is either that of the argument that receives the path, or declared. -/
theorem essentials_declared_iff {argument : String} {listed : List Item} {names : List String} :
    undeclared? (if argument ∈ listed.map Item.name then some argument else none)
        ((listed.filter (·.name ≠ argument)).map Item.name) names = none ↔
      ∀ name ∈ names, name ∈ listed.map Item.name := by
  rw [undeclared?_eq_none_iff]
  apply forall₂_congr
  intro name _
  by_cases hname : name = argument
  · subst hname
    by_cases h : name ∈ listed.map Item.name <;> simp [h]
  · have hsupplied : some name ≠
        if argument ∈ listed.map Item.name then some argument else none := by
      split <;> simp [hname]
    rw [or_iff_right hsupplied]
    simp only [List.mem_map, List.mem_filter, decide_eq_true_eq]
    constructor
    · rintro ⟨i, ⟨hi, -⟩, rfl⟩
      exact ⟨i, hi, rfl⟩
    · rintro ⟨i, hi, rfl⟩
      exact ⟨i, ⟨hi, hname⟩, rfl⟩

theorem essentials_filter_eq {argument : String} {listed : List Item} {names : List String}
    (declared : ∀ name ∈ names, name ∈ listed.map Item.name) :
    (names.filter fun name =>
        some name ≠ if argument ∈ listed.map Item.name then some argument else none) =
      names.filter (· ≠ argument) := by
  apply List.filter_congr
  intro name hname
  by_cases h : argument ∈ listed.map Item.name
  · simp [h]
  · have hne : name ≠ argument := fun heq => h (heq ▸ declared name hname)
    simp [h, hne]

theorem command_eq_ok_iff {options : Options} {path localName : String} {item : Item}
    {d : Descriptor} :
    command options path localName item = .ok d ↔
      DescribesCommand options d item ∧ d.localName = localName := by
  simp only [command, bind_eq_ok_iff, mark_eq_ok_iff]
  constructor
  · rintro ⟨found, hfound, h⟩
    cases found with
    | command =>
      simp only [bind_eq_ok_iff, sortedItems_eq_ok_iff, essentials_eq_ok_iff, supplied_eq] at h
      obtain ⟨listed, hlisted, arguments, harguments, names, hnames, h⟩ := h
      rw [leaves_eq_ok_iff (by simp)] at harguments
      split at h
      · simp at h
      · next hdeclared =>
        rw [essentials_declared_iff] at hdeclared
        simp only [bind_eq_ok_iff, isQuery_eq_ok_iff hfound, pure_eq_ok_iff,
          essentials_filter_eq hdeclared] at h
        obtain ⟨query, hquery, rfl⟩ := h
        refine ⟨⟨localName, arguments, listed, names, query, hlisted, hnames, hquery, hdeclared,
          harguments.1, ?_, rfl⟩, rfl⟩
        rw [harguments.2, List.take_of_length_le (by simp)]
    | _ => simp at h
  · rintro ⟨⟨_, arguments, listed, names, query, hlisted, hnames, hquery, hdeclared, harguments,
      hlocals, rfl⟩, rfl⟩
    have hcommand : item.entry.IsCommand := hquery.isCommand
    refine ⟨.command, hcommand, ?_⟩
    simp only [bind_eq_ok_iff, sortedItems_eq_ok_iff, essentials_eq_ok_iff, supplied_eq]
    refine ⟨listed, hlisted, arguments, ?_, names, hnames, ?_⟩
    · rw [leaves_eq_ok_iff (by simp)]
      exact ⟨harguments, by rw [hlocals, List.take_of_length_le (by simp)]⟩
    · rw [essentials_declared_iff.2 hdeclared]
      simp only [bind_eq_ok_iff, isQuery_eq_ok_iff hcommand, pure_eq_ok_iff,
        essentials_filter_eq hdeclared]
      exact ⟨query, hquery, rfl⟩

theorem commands_eq_ok_iff {options : Options} {path : String} {locals : List String}
    {items : List Item} {ds : List Descriptor} (h : items.length ≤ locals.length) :
    ((locals.zip items).mapM fun a => command options path a.1 a.2) = .ok ds ↔
      List.Forall₂ (DescribesCommand options) ds items ∧
        ds.map Descriptor.localName = locals.take items.length := by
  simp only [mapM_eq_ok_iff, command_eq_ok_iff, forall₂_zip_iff h]

/-- Local names are handed out in one go and divided among the three sections. -/
theorem divided_iff {properties children commands : List Descriptor} {n m k : Nat}
    {locals : List String} (hn : properties.length = n) (hm : children.length = m)
    (hk : commands.length = k) (h : locals.length = n + m + k) :
    (properties.map Descriptor.localName = locals.take n ∧
      children.map Descriptor.localName = (locals.drop n).take m ∧
      commands.map Descriptor.localName = ((locals.drop n).drop m).take k) ↔
      (properties ++ children ++ commands).map Descriptor.localName = locals := by
  subst hn hm hk
  rw [List.map_append, List.map_append]
  constructor
  · rintro ⟨hp, hc, hm⟩
    rw [List.take_of_length_le (by simp [h])] at hm
    rw [hp, hc, hm, List.append_assoc, List.take_append_drop, List.take_append_drop]
  · rintro rfl
    simp [List.append_assoc, List.take_of_length_le]

/-- A container succeeds exactly with the positions that describe its entry, when this holds of all
smaller entries. -/
theorem children_eq_ok_iff {options : Options} {path : String} {entry : Entry}
    (ih : ∀ inner : Entry, sizeOf inner < sizeOf entry → ∀ path label d,
      container options path label inner = .ok d ↔
        Describes options d ⟨label.remote, inner, label.ordinal⟩ ∧ d.label = label)
    {locals : List String} {items : List { i : Item // sizeOf i.entry < sizeOf entry }}
    {ds : List Descriptor} (h : items.length ≤ locals.length) :
    ((locals.zip items).mapM fun c =>
      container options (pathOf path c.2.1.name) ⟨c.2.1.name, c.1, c.2.1.ordinal⟩ c.2.1.entry) =
        .ok ds ↔
      DescribesAll options ds (items.map Subtype.val) ∧
        ds.map Descriptor.localName = locals.take items.length := by
  have hone (c : String × { i : Item // sizeOf i.entry < sizeOf entry }) (d : Descriptor) :
      container options (pathOf path c.2.1.name) ⟨c.2.1.name, c.1, c.2.1.ordinal⟩ c.2.1.entry =
        .ok d ↔ Describes options d c.2.1 ∧ d.localName = c.1 := by
    rw [ih _ c.2.2]
    refine and_congr_right fun hd => ⟨fun hlabel => by rw [Descriptor.localName, hlabel], ?_⟩
    intro hname
    rw [hd.label_eq, hname]
  simp only [mapM_eq_ok_iff, hone]
  rw [forall₂_zip_iff (R := fun d i => Describes options d i.1) h, describesAll_iff,
    List.forall₂_map_right_iff]

theorem container_eq_ok_iff {options : Options} {path : String} {label : Label} {entry : Entry}
    {d : Descriptor} :
    container options path label entry = .ok d ↔
      Describes options d ⟨label.remote, entry, label.ordinal⟩ ∧ d.label = label := by
  have ih : ∀ inner : Entry, sizeOf inner < sizeOf entry → ∀ path label d,
      container options path label inner = .ok d ↔
        Describes options d ⟨label.remote, inner, label.ordinal⟩ ∧ d.label = label :=
    fun inner _ path label d => container_eq_ok_iff
  rw [container, describes_iff_shaped]
  simp only [bind_eq_ok_iff, mark_eq_ok_iff]
  constructor
  · rintro ⟨found, hmark, h⟩
    cases found with
    | command => simp at h
    | leaf tag => simp at h
    | unmarked | collection =>
      simp only [bind_eq_ok_iff, sortedItems_eq_ok_iff, pure_eq_ok_iff] at h
      obtain ⟨parameters, hparameters, inner, hinner, actions, hactions, properties, hproperties,
        children, hchildren, commands, hcommands, rfl⟩ := h
      rw [leaves_eq_ok_iff (by simp)] at hproperties
      rw [children_eq_ok_iff ih (by simp)] at hchildren
      rw [commands_eq_ok_iff (by simp; omega)] at hcommands
      have hreads := (reads_iff_smallerItems path).2 ⟨inner, hinner, rfl⟩
      have hlocals := (divided_iff hproperties.1.length_eq
        (by simpa using (describesAll_iff.1 hchildren.1).length_eq) hcommands.1.length_eq
        (by simp; omega)).1 ⟨hproperties.2, hchildren.2, hcommands.2⟩
      refine ⟨_, properties, children, commands, hmark, by simp, ?_, rfl⟩
      exact ⟨parameters, inner.map Subtype.val, actions, hparameters, hreads, hactions,
        hproperties.1, hchildren.1, hcommands.1, by simpa [Function.comp_def] using hlocals⟩
  · rintro ⟨found, properties, children, commands, hmark, hfound, hmembers, rfl⟩
    obtain ⟨parameters, items, actions, hparameters, hreads, hactions, hproperties, hchildren,
      hcommands, hlocals⟩ := hmembers
    obtain ⟨inner, hinner, rfl⟩ := (reads_iff_smallerItems path).1 hreads
    have hdivided := (divided_iff hproperties.length_eq
      (by simpa using (describesAll_iff.1 hchildren).length_eq) hcommands.length_eq
      (by simp; omega)).2 hlocals
    refine ⟨found, hmark, ?_⟩
    rcases hfound with rfl | rfl
    all_goals
      simp only [bind_eq_ok_iff, sortedItems_eq_ok_iff, pure_eq_ok_iff]
      refine ⟨parameters, hparameters, inner, hinner, actions, hactions, properties, ?_,
        children, ?_, commands, ?_, rfl⟩
      · rw [leaves_eq_ok_iff (by simp)]
        exact ⟨hproperties, by simpa [Function.comp_def] using hdivided.1⟩
      · rw [children_eq_ok_iff ih (by simp)]
        exact ⟨hchildren, by simpa [Function.comp_def] using hdivided.2.1⟩
      · rw [commands_eq_ok_iff (by simp; omega)]
        exact ⟨hcommands, by simpa [Function.comp_def] using hdivided.2.2⟩
termination_by sizeOf entry

end Compile

/-- A schema compiles to a tree that describes the entry of the root type, which is a container of a
fixed shape. -/
theorem compile_eq_ok_iff {raw : Json} {rootType : String} {options : Options}
    {schema : Compiled} :
    compile raw rootType options = .ok schema ↔
      ∃ (top : Keyed Json) (entry : Entry) (ordinal : Int64) (d : Descriptor),
        raw = .obj top ∧ Keyed.get? rootType top = some (.obj entry) ∧
        entry.HasOrdinal ordinal ∧ entry.IsFixed ∧ Describes options d ⟨rootType, entry, ordinal⟩ ∧
        d.localName = options.naming.localName rootType ∧
        schema = ⟨raw.digest, options.digest, rootType, d⟩ := by
  simp only [compile, bind_eq_ok_iff, ofJson_eq_ok_iff]
  constructor
  · rintro ⟨top, hraw, h⟩
    split at h
    · simp at h
    · next value hvalue =>
      simp only [bind_eq_ok_iff, ofJson_eq_ok_iff, ordinal_eq_ok_iff] at h
      obtain ⟨entry, rfl, ordinal, hordinal, d, hd, h⟩ := h
      obtain ⟨hdescribes, hlabel⟩ := Compile.container_eq_ok_iff.1 hd
      cases d with
      | container label properties children commands =>
        rw [pure_eq_ok_iff] at h
        refine ⟨top, entry, ordinal, _, hraw, hvalue, hordinal, hdescribes.2.2.1, hdescribes, ?_,
          h.symm⟩
        rw [Descriptor.localName, hlabel]
      | collection label template => simp at h
      | _ => exact hdescribes.elim
  · rintro ⟨top, entry, ordinal, d, rfl, hvalue, hordinal, hfixed, hdescribes, hlocal, rfl⟩
    refine ⟨top, rfl, ?_⟩
    rw [hvalue]
    simp only [bind_eq_ok_iff, ofJson_eq_ok_iff, ordinal_eq_ok_iff]
    have hlabel : d.label = ⟨rootType, options.naming.localName rootType, ordinal⟩ := by
      rw [hdescribes.label_eq, hlocal]
    refine ⟨entry, rfl, ordinal, hordinal, d, ?_, ?_⟩
    · rw [Compile.container_eq_ok_iff, hlabel]
      exact ⟨hdescribes, rfl⟩
    · cases d with
      | collection label template =>
        cases template with
        | container inner properties children commands =>
          have hcollection : entry.IsCollection := hdescribes.2.2.1
          exact absurd hcollection hfixed.2.1.not_collection
        | _ => exact hdescribes.elim
      | _ => rfl

theorem compile_eq_ok_of_container {top : Keyed Json} {rootType : String} {options : Options}
    {entry : Entry} {ordinal : Int64} {label : Label}
    {properties children commands : List Descriptor}
    (hget : Keyed.get? rootType top = some (.obj entry)) (hordinal : entry.HasOrdinal ordinal)
    (h : Compile.container options (Path.render [⟨rootType, none⟩])
        ⟨rootType, options.naming.localName rootType, ordinal⟩ entry =
      .ok (.container label properties children commands)) :
    compile (.obj top) rootType options =
      .ok ⟨(Json.obj top).digest, options.digest, rootType,
        .container label properties children commands⟩ := by
  obtain ⟨hdescribes, hlabel⟩ := Compile.container_eq_ok_iff.1 h
  refine compile_eq_ok_iff.2 ⟨top, entry, ordinal, _, rfl, hget, hordinal, hdescribes.2.2.1,
    hdescribes, ?_, rfl⟩
  rw [Descriptor.localName, hlabel]

end SettingsTree
