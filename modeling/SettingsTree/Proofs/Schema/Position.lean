import SettingsTree.Proofs.Schema.Settings
import SettingsTree.Proofs.Schema.Ties

/-! # Positions of entries that agree

Two trees that describe entries that agree are the same tree exactly when the ties of the entries
are broken alike: then siblings stand in the same order, and receive the same local names.
-/

namespace SettingsTree

open Entry Name

variable {options other : Options}

/-! ### Options that agree -/

theorem Options.Agree.describesCommand_iff (h : options.Agree other) {d : Descriptor}
    {item : Item} : DescribesCommand options d item ↔ DescribesCommand other d item := by
  rw [DescribesCommand, DescribesCommand, h.pathArgument, h.localName]

theorem Options.Agree.describesMembers_iff (h : options.Agree other)
    {properties children commands : List Descriptor} {entry : Entry}
    (hinside : ∀ items, DescribesAll options children items ↔ DescribesAll other children items) :
    DescribesMembers options properties children commands (DescribesAll options children) entry ↔
      DescribesMembers other properties children commands (DescribesAll other children) entry := by
  have hcommands : DescribesCommand options = DescribesCommand other := by
    ext d item
    exact h.describesCommand_iff
  have hchildren : DescribesAll options children = DescribesAll other children := by
    ext items
    exact hinside items
  rw [DescribesMembers, DescribesMembers, hcommands, hchildren, h.localName]

theorem describesAll_congr {ds : List Descriptor}
    (hds : ∀ d ∈ ds, ∀ item, Describes options d item ↔ Describes other d item)
    (items : List Item) : DescribesAll options ds items ↔ DescribesAll other ds items := by
  induction ds generalizing items with
  | nil => cases items <;> simp [DescribesAll]
  | cons d ds ih =>
    rw [List.forall_mem_cons] at hds
    cases items with
    | nil => simp [DescribesAll]
    | cons item items => rw [DescribesAll, DescribesAll, hds.1, ih hds.2]

/-- The induction also covers the children of a position, which the template of a collection has in
common with the collection. -/
theorem Options.Agree.describes_iff (h : options.Agree other) (d : Descriptor) (item : Item) :
    Describes options d item ↔ Describes other d item := by
  have hboth : (∀ item, Describes options d item ↔ Describes other d item) ∧
      ∀ members, d.members? = some members → ∀ items,
        DescribesAll options members.children items ↔
          DescribesAll other members.children items := by
    induction d with
    | container label properties children commands _ ih _ =>
      have hchildren := describesAll_congr fun c hc => (ih c hc).1
      constructor
      · intro item
        rw [Describes, Describes, h.describesMembers_iff hchildren]
      · intro members hmembers
        cases hmembers
        exact hchildren
    | collection label template ih =>
      refine ⟨fun item => ?_, ih.2⟩
      cases template with
      | container inner properties children commands =>
        rw [Describes, Describes, h.describesMembers_iff (ih.2 _ rfl)]
      | _ => rfl
    | leaf => exact ⟨fun _ => Iff.rfl, fun _ hmembers => nomatch hmembers⟩
    | command => exact ⟨fun _ => Iff.rfl, fun _ hmembers => nomatch hmembers⟩
  exact hboth.1 item

/-! ### Positions one by one -/

variable {d d' : Descriptor} {i j : Item} {ds ds' : List Descriptor} {items others : List Item}
  {R : Descriptor → Item → Prop}

theorem DescribesLeaf.label_eq (h : DescribesLeaf d i) :
    d.label = ⟨i.name, d.localName, i.ordinal⟩ := by
  obtain ⟨_, _, _, _, _, rfl⟩ := h
  rfl

theorem DescribesCommand.label_eq (h : DescribesCommand options d i) :
    d.label = ⟨i.name, d.localName, i.ordinal⟩ := by
  obtain ⟨_, _, _, _, _, _, _, _, _, _, _, rfl⟩ := h
  rfl

theorem places_eq (hlabel : ∀ d i, R d i → d.label = ⟨i.name, d.localName, i.ordinal⟩)
    (h : List.Forall₂ R ds items) :
    items.map Item.place = ds.map fun d => (d.remote, d.ordinal) := by
  induction h with
  | nil => rfl
  | cons hd _ ih =>
    rw [List.map_cons, List.map_cons, ih, Descriptor.remote, Descriptor.ordinal, hlabel _ _ hd]
    rfl

theorem remotes_eq (hlabel : ∀ d i, R d i → d.label = ⟨i.name, d.localName, i.ordinal⟩)
    (h : List.Forall₂ R ds items) : ds.map Descriptor.remote = items.map Item.name := by
  have hplaces := congrArg (List.map Prod.fst) (places_eq hlabel h)
  simpa [Function.comp_def, Item.place] using hplaces.symm

/-- Positions of items in the same places are equal when those with equal local names are. -/
theorem eq_of_places (h : List.Forall₂ R ds items) (h' : List.Forall₂ R ds' others)
    (hplaces : items.map Item.place = others.map Item.place)
    (hlocals : ds.map Descriptor.localName = ds'.map Descriptor.localName)
    (heq : ∀ d ∈ ds, ∀ d', ∀ i ∈ items, ∀ j ∈ others, R d i → R d' j → i.place = j.place →
      d.localName = d'.localName → d = d') : ds = ds' := by
  induction h generalizing ds' others with
  | nil =>
    rw [List.map_nil, eq_comm, List.map_eq_nil_iff] at hlocals
    rw [hlocals]
  | cons hd _ ih =>
    cases h' with
    | nil => simp at hplaces
    | cons hd' h' =>
      rw [List.map_cons, List.map_cons, List.cons.injEq] at hplaces hlocals
      have hhead := heq _ List.mem_cons_self _ _ List.mem_cons_self _ List.mem_cons_self hd hd'
        hplaces.1 hlocals.1
      have htail := ih h' hplaces.2 hlocals.2 fun d hd d' i hi j hj =>
        heq d (List.mem_cons_of_mem _ hd) d' i (List.mem_cons_of_mem _ hi) j
          (List.mem_cons_of_mem _ hj)
      rw [hhead, htail]

theorem eq_of_agree {part : Section} {entry found : Entry} {listed listed' : List Item}
    (hagree : entry.Agree found) (hi : Reads part entry listed) (ho : Reads part found listed')
    (hsub : items ⊆ listed) (hsub' : others ⊆ listed') (h : List.Forall₂ R ds items)
    (h' : List.Forall₂ R ds' others) (hplaces : items.map Item.place = others.map Item.place)
    (hlocals : ds.map Descriptor.localName = ds'.map Descriptor.localName)
    (heq : ∀ d ∈ ds, ∀ d' i j, R d i → R d' j → i.Agree j → Holds part entry i.name i.entry →
      Holds part found i.name j.entry → d.localName = d'.localName → d = d') : ds = ds' := by
  apply eq_of_places h h' hplaces hlocals
  intro d hd d' i hmem j hmem' hdi hdj hplace hlocal
  have hij := agree_of_name hagree hi ho (hsub hmem) (hsub' hmem') (congrArg Prod.fst hplace)
  exact heq d hd d' i j hdi hdj hij ((Entry.holds_iff hi).2 ⟨i, hsub hmem, rfl, rfl⟩)
    ((Entry.holds_iff ho).2 ⟨j, hsub' hmem', hij.name.symm, rfl⟩) hlocal

theorem map_name_of_places {α : Type} (f : String → α)
    (h : items.map Item.place = others.map Item.place) :
    (items.map fun i => f i.name) = others.map fun i => f i.name := by
  have hnames := congrArg (List.map fun p => f p.1) h
  rw [List.map_map, List.map_map] at hnames
  exact hnames

/-! ### Properties and commands -/

theorem DescribesLeaf.shapes_of_agree (hd : DescribesLeaf d i) (hd' : DescribesLeaf d' j)
    (h : i.Agree j) :
    ∃ primitive, d = .leaf ⟨i.name, d.localName, i.ordinal⟩ primitive ∧
      d' = .leaf ⟨i.name, d'.localName, i.ordinal⟩ primitive := by
  obtain ⟨_, tag, primitive, hleaf, hprimitive, rfl⟩ := hd
  obtain ⟨_, tag', primitive', hleaf', hprimitive', rfl⟩ := hd'
  have htag : tag = tag' := by
    have htype := ((h.entry.isLeaf_iff tag).1 hleaf).2.2
    rw [hleaf'.2.2, Option.some.injEq, Json.str.injEq] at htype
    exact htype.symm
  rw [htag, hprimitive', Option.some.injEq] at hprimitive
  refine ⟨primitive, rfl, ?_⟩
  rw [h.name, h.ordinal, hprimitive]
  rfl

theorem DescribesLeaf.eq_of_agree (hd : DescribesLeaf d i) (hd' : DescribesLeaf d' j)
    (h : i.Agree j) (hlocal : d.localName = d'.localName) : d = d' := by
  obtain ⟨primitive, hshape, hshape'⟩ := hd.shapes_of_agree hd' h
  rw [hshape, hlocal]
  exact hshape'.symm

theorem Entry.Agree.mem_names_iff {part : Section} {entry found : Entry} (h : entry.Agree found)
    (hi : Reads part entry items) (ho : Reads part found others) (name : String) :
    name ∈ items.map Item.name ↔ name ∈ others.map Item.name := by
  have hheld {e : Entry} {listed : List Item} (hreads : Reads part e listed) :
      name ∈ listed.map Item.name ↔ ∃ inner, Holds part e name inner := by
    simp [Entry.holds_iff hreads]
  rw [hheld hi, hheld ho, h.holds_iff]

theorem DescribesCommand.shapes_of_agree (hd : DescribesCommand options d i)
    (hd' : DescribesCommand options d' j) (h : i.Agree j) :
    ∃ listed listed' arguments arguments' essential pathArgument query,
      Reads .arguments i.entry listed ∧ Reads .arguments j.entry listed' ∧
      List.Forall₂ DescribesLeaf arguments (listed.filter (·.name ≠ options.pathArgument)) ∧
      List.Forall₂ DescribesLeaf arguments' (listed'.filter (·.name ≠ options.pathArgument)) ∧
      arguments.map Descriptor.localName = distinguishAll
        ((listed.filter (·.name ≠ options.pathArgument)).map fun a =>
          options.naming.localName a.name) ∧
      arguments'.map Descriptor.localName = distinguishAll
        ((listed'.filter (·.name ≠ options.pathArgument)).map fun a =>
          options.naming.localName a.name) ∧
      d = .command ⟨i.name, d.localName, i.ordinal⟩ arguments essential pathArgument query ∧
      d' = .command ⟨i.name, d'.localName, i.ordinal⟩ arguments' essential pathArgument query := by
  obtain ⟨_, arguments, listed, names, query, hreads, hnames, hquery, -, hleaves, hlocals,
    rfl⟩ := hd
  obtain ⟨_, arguments', listed', names', query', hreads', hnames', hquery', -, hleaves', hlocals',
    rfl⟩ := hd'
  have hessential := ((h.entry.hasEssentials_iff names).1 hnames).unique hnames'
  have hflag := ((h.entry.hasQueryFlag_iff query).1 hquery).unique hquery'
  have hsupplied := propext (h.entry.mem_names_iff hreads hreads' options.pathArgument)
  refine ⟨listed, listed', arguments, arguments', _, _, _, hreads, hreads', hleaves, hleaves',
    hlocals, hlocals', rfl, ?_⟩
  simp only [h.name, h.ordinal, hessential, hflag, hsupplied]
  rfl

theorem DescribesCommand.eq_iff_of_agree (hd : DescribesCommand options d i)
    (hd' : DescribesCommand options d' j) (h : i.Agree j) (hlocal : d.localName = d'.localName) :
    d = d' ↔
      TiesAgree .arguments (fun name => name ≠ options.pathArgument) i.entry j.entry := by
  obtain ⟨listed, listed', arguments, arguments', essential, pathArgument, query, hreads, hreads',
    hleaves, hleaves', hlocals, hlocals', hshape, hshape'⟩ := hd.shapes_of_agree hd' h
  rw [tiesAgree_iff hreads hreads']
  constructor
  · intro heq
    rw [hshape, hshape'] at heq
    have harguments : arguments = arguments' := (Descriptor.command.inj heq).2.1
    rw [places_eq (fun _ _ => DescribesLeaf.label_eq) hleaves,
      places_eq (fun _ _ => DescribesLeaf.label_eq) hleaves', harguments]
  · intro hplaces
    have harguments : arguments = arguments' := by
      refine eq_of_agree h.entry hreads hreads' (List.filter_subset_self _)
        (List.filter_subset_self _) hleaves hleaves' hplaces ?_ ?_
      · rw [hlocals, hlocals', map_name_of_places options.naming.localName hplaces]
      · intro a _ a' i j ha ha' hij _ _ hname
        exact ha.eq_of_agree ha' hij hname
    rw [hshape, hlocal, harguments]
    exact hshape'.symm

/-! ### Containers -/

theorem shaped_members {found : Mark} {label : Label} (members : Members) :
    (shaped found label members.properties members.children members.commands).members? =
      some members := by
  unfold shaped
  split <;> rfl

/-- A position is made up of its mark, its label and its members. -/
theorem Describes.eq_shaped (h : Describes options d i) :
    ∃ found members, i.entry.HasMark found ∧ (found = .unmarked ∨ found = .collection) ∧
      d.members? = some members ∧
      d = shaped found ⟨i.name, d.localName, i.ordinal⟩ members.properties members.children
        members.commands := by
  have hlabel : d.label = ⟨i.name, d.localName, i.ordinal⟩ := h.label_eq
  obtain ⟨found, properties, children, commands, hmark, hfound, -, hshaped⟩ :=
    describes_iff_shaped.1 ⟨h, hlabel⟩
  refine ⟨found, ⟨properties, children, commands⟩, hmark, hfound, ?_, hshaped⟩
  rw [hshaped]
  exact shaped_members ⟨properties, children, commands⟩

/-- Positions that describe items that agree differ in their local names and members at most. -/
theorem Describes.shapes_of_agree (hd : Describes options d i) (hd' : Describes options d' j)
    (h : i.Agree j) {members members' : Members} (hmembers : d.members? = some members)
    (hmembers' : d'.members? = some members') :
    ∃ found, d = shaped found ⟨i.name, d.localName, i.ordinal⟩ members.properties members.children
        members.commands ∧
      d' = shaped found ⟨i.name, d'.localName, i.ordinal⟩ members'.properties members'.children
        members'.commands := by
  obtain ⟨found, inside, hmark, hfound, hinside, hshape⟩ := hd.eq_shaped
  obtain ⟨found', inside', hmark', hfound', hinside', hshape'⟩ := hd'.eq_shaped
  rw [hmembers, Option.some.injEq] at hinside
  rw [hmembers', Option.some.injEq] at hinside'
  subst hinside hinside'
  have hsame : found = found' := by
    rcases hfound with rfl | rfl <;> rcases hfound' with rfl | rfl
    · rfl
    · exact absurd (h.entry.isCollection_iff.2 hmark') hmark.2.1.not_collection
    · exact absurd (h.entry.isCollection_iff.1 hmark) hmark'.2.1.not_collection
    · rfl
  subst hsame
  rw [← h.name, ← h.ordinal] at hshape'
  exact ⟨found, hshape, hshape'⟩

theorem Describes.eq_iff_members (hd : Describes options d i) (hd' : Describes options d' j)
    (h : i.Agree j) (hlocal : d.localName = d'.localName) {members members' : Members}
    (hmembers : d.members? = some members) (hmembers' : d'.members? = some members') :
    d = d' ↔ members = members' := by
  obtain ⟨found, hshape, hshape'⟩ := hd.shapes_of_agree hd' h hmembers hmembers'
  constructor
  · rintro rfl
    rw [hmembers, Option.some.injEq] at hmembers'
    exact hmembers'
  · rintro rfl
    rw [hshape, hlocal]
    exact hshape'.symm

variable {entry found : Entry}

/-- What both entries list under a name is described by one position, when their sections are
described by the same ones. -/
theorem exists_shared {part : Section} (h : entry.Agree found)
    (hlabel : ∀ d i, R d i → d.label = ⟨i.name, d.localName, i.ordinal⟩)
    (hi : Reads part entry items) (ho : Reads part found others) (hds : List.Forall₂ R ds items)
    (hds' : List.Forall₂ R ds others) {name : String} {inner outer : Entry}
    (hinner : Holds part entry name inner) (houter : Holds part found name outer) :
    ∃ d ∈ ds, ∃ i j, R d i ∧ R d j ∧ i.Agree j ∧ i.entry = inner ∧ j.entry = outer := by
  obtain ⟨i, hmem, hname, hentry⟩ := (Entry.holds_iff hi).1 hinner
  obtain ⟨d, hd, hdi⟩ := exists_of_mem_right hds hmem
  obtain ⟨j, hmem', hdj⟩ := exists_of_mem_left hds' hd
  have hsame : i.name = j.name := by
    have hlabels := hlabel d j hdj
    rw [hlabel d i hdi, Label.mk.injEq] at hlabels
    exact hlabels.1
  have hagree := agree_of_name h hi ho hmem hmem' hsame
  have hholds : Holds part found name j.entry :=
    (Entry.holds_iff ho).2 ⟨j, hmem', hagree.name.symm.trans hname, rfl⟩
  exact ⟨d, hd, i, j, hdi, hdj, hagree, hentry, hholds.unique h.right houter⟩

/-- Equal children of entries that agree have their ties broken alike, and conversely. -/
def ChildrenDecide (options : Options) (children : List Descriptor) : Prop :=
  ∀ c ∈ children, ∀ c' i j, Describes options c i → Describes options c' j → i.Agree j →
    c.localName = c'.localName → (c = c' ↔ SameTies options i.entry j.entry)

theorem sameTies_of_describesMembers {properties children commands : List Descriptor}
    (hdecide : ChildrenDecide options children) (hagree : entry.Agree found)
    (h : DescribesMembers options properties children commands (DescribesAll options children)
      entry)
    (h' : DescribesMembers options properties children commands (DescribesAll options children)
      found) : SameTies options entry found := by
  obtain ⟨parameters, inner, actions, hp, hc, hm, hproperties, hchildren, hcommands, -⟩ := h
  obtain ⟨parameters', inner', actions', hp', hc', hm', hproperties', hchildren', hcommands',
    -⟩ := h'
  rw [describesAll_iff] at hchildren hchildren'
  refine .intro ((allTiesAgree_iff hp hp').2 ?_) ((allTiesAgree_iff hc hc').2 ?_)
    ((allTiesAgree_iff hm hm').2 ?_) (fun name e e' he he' => ?_) fun name e e' he he' => ?_
  · rw [places_eq (fun _ _ => DescribesLeaf.label_eq) hproperties,
      places_eq (fun _ _ => DescribesLeaf.label_eq) hproperties']
  · rw [places_eq (fun _ _ => Describes.label_eq) hchildren,
      places_eq (fun _ _ => Describes.label_eq) hchildren']
  · rw [places_eq (fun _ _ => DescribesCommand.label_eq) hcommands,
      places_eq (fun _ _ => DescribesCommand.label_eq) hcommands']
  · obtain ⟨d, -, i, j, hdi, hdj, hij, rfl, rfl⟩ := exists_shared hagree
      (fun _ _ => DescribesCommand.label_eq) hm hm' hcommands hcommands' he he'
    exact (hdi.eq_iff_of_agree hdj hij rfl).1 rfl
  · obtain ⟨d, hd, i, j, hdi, hdj, hij, rfl, rfl⟩ := exists_shared hagree
      (fun _ _ => Describes.label_eq) hc hc' hchildren hchildren' he he'
    exact (hdecide d hd d i j hdi hdj hij rfl).1 rfl

theorem length_eq_of_places (h : List.Forall₂ R ds items) (h' : List.Forall₂ R ds' others)
    (hplaces : items.map Item.place = others.map Item.place) : ds.length = ds'.length := by
  have hlength := congrArg List.length hplaces
  rwa [List.length_map, List.length_map, ← h.length_eq, ← h'.length_eq] at hlength

theorem localNames_divided {properties properties' children children' commands commands' :
      List Descriptor}
    (hp : properties.length = properties'.length) (hc : children.length = children'.length)
    (h : (properties ++ children ++ commands).map Descriptor.localName =
      (properties' ++ children' ++ commands').map Descriptor.localName) :
    properties.map Descriptor.localName = properties'.map Descriptor.localName ∧
      children.map Descriptor.localName = children'.map Descriptor.localName ∧
      commands.map Descriptor.localName = commands'.map Descriptor.localName := by
  simp only [List.map_append, List.append_assoc] at h
  obtain ⟨hpnames, hrest⟩ := List.append_inj h (by rw [List.length_map, List.length_map, hp])
  exact ⟨hpnames, List.append_inj hrest (by rw [List.length_map, List.length_map, hc])⟩

/-- The local names of the three sections are handed out in one go, so all three have to stand in
the same order before any of them is known to be the same. -/
theorem members_eq_of_sameTies {members members' : Members}
    (hdecide : ChildrenDecide options members.children) (hagree : entry.Agree found)
    (h : DescribesMembers options members.properties members.children members.commands
      (DescribesAll options members.children) entry)
    (h' : DescribesMembers options members'.properties members'.children members'.commands
      (DescribesAll options members'.children) found)
    (hties : SameTies options entry found) : members = members' := by
  obtain ⟨properties, children, commands⟩ := members
  obtain ⟨properties', children', commands'⟩ := members'
  obtain ⟨parameters, inner, actions, hp, hc, hm, hproperties, hchildren, hcommands, hlocals⟩ := h
  obtain ⟨parameters', inner', actions', hp', hc', hm', hproperties', hchildren', hcommands',
    hlocals'⟩ := h'
  rw [describesAll_iff] at hchildren hchildren'
  obtain ⟨hpties, hcties, hmties, harguments, hinside⟩ := hties
  rw [allTiesAgree_iff hp hp'] at hpties
  rw [allTiesAgree_iff hc hc'] at hcties
  rw [allTiesAgree_iff hm hm'] at hmties
  have hall : (properties ++ children ++ commands).map Descriptor.localName =
      (properties' ++ children' ++ commands').map Descriptor.localName := by
    rw [hlocals, hlocals']
    simp only [List.map_append, map_name_of_places _ hpties, map_name_of_places _ hcties,
      map_name_of_places _ hmties]
  obtain ⟨hpnames, hcnames, hmnames⟩ := localNames_divided
    (length_eq_of_places hproperties hproperties' hpties)
    (length_eq_of_places hchildren hchildren' hcties) hall
  have hpeq : properties = properties' := by
    apply eq_of_agree hagree hp hp' (List.Subset.refl _) (List.Subset.refl _) hproperties
      hproperties' hpties hpnames
    intro p _ p' i j hd hd' hij _ _ hlocal
    exact hd.eq_of_agree hd' hij hlocal
  have hceq : children = children' := by
    apply eq_of_agree hagree hc hc' (List.Subset.refl _) (List.Subset.refl _) hchildren
      hchildren' hcties hcnames
    intro c hmem c' i j hd hd' hij hholds hholds' hlocal
    exact (hdecide c hmem c' i j hd hd' hij hlocal).2 (hinside i.name _ _ hholds hholds')
  have hmeq : commands = commands' := by
    apply eq_of_agree hagree hm hm' (List.Subset.refl _) (List.Subset.refl _) hcommands
      hcommands' hmties hmnames
    intro m _ m' i j hd hd' hij hholds hholds' hlocal
    exact (hd.eq_iff_of_agree hd' hij hlocal).2 (harguments i.name _ _ hholds hholds')
  rw [hpeq, hceq, hmeq]

/-- The induction follows the first tree. -/
theorem members_eq_iff_sameTies {members members' : Members} (hd : d.members? = some members)
    (hagree : entry.Agree found)
    (h : DescribesMembers options members.properties members.children members.commands
      (DescribesAll options members.children) entry)
    (h' : DescribesMembers options members'.properties members'.children members'.commands
      (DescribesAll options members'.children) found) :
    members = members' ↔ SameTies options entry found := by
  induction d generalizing members members' entry found with
  | container label properties children commands _ ih _ =>
    cases hd
    have hdecide : ChildrenDecide options children := by
      intro c hc c' i j hdi hdj hij hlocal
      obtain ⟨inside, hinside, hmembers⟩ := hdi.members
      obtain ⟨inside', hinside', hmembers'⟩ := hdj.members
      rw [hdi.eq_iff_members hdj hij hlocal hinside hinside']
      exact ih c hc hinside hij.entry hmembers hmembers'
    constructor
    · rintro rfl
      exact sameTies_of_describesMembers hdecide hagree h h'
    · exact members_eq_of_sameTies hdecide hagree h h'
  | collection label template ih => exact ih hd hagree h h'
  | leaf => cases hd
  | command => cases hd

/-- Positions of items that agree are equal exactly when the ties of the items are broken alike. -/
theorem Describes.eq_iff_sameTies (hd : Describes options d i) (hd' : Describes options d' j)
    (h : i.Agree j) (hlocal : d.localName = d'.localName) :
    d = d' ↔ SameTies options i.entry j.entry := by
  obtain ⟨members, hmembers, hdescribes⟩ := hd.members
  obtain ⟨members', hmembers', hdescribes'⟩ := hd'.members
  rw [hd.eq_iff_members hd' h hlocal hmembers hmembers']
  exact members_eq_iff_sameTies hmembers h.entry hdescribes hdescribes'

end SettingsTree
