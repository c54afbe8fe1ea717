import SettingsTree.Proofs.Schema.Position

/-! # Trees up to the order of siblings

Where siblings stand, and with it what they are called locally, is all that the order of a document
decides. Without it two trees that describe entries that agree are the same.
-/

namespace SettingsTree

open Entry Name

namespace Descriptor

/-- Siblings in the order of their remote names. -/
def alphabetical (ds : List Descriptor) : List Descriptor :=
  sortOn (fun d e => decide (d.remote ≤ e.remote)) ds

mutual
/-- A position without what the order of a document decides: siblings stand in the order of their
remote names, and there are no local names. -/
def unordered : Descriptor → Descriptor
  | container label properties children commands =>
    container { label with localName := "" } (alphabetical (unorderedAll properties))
      (alphabetical (unorderedAll children)) (alphabetical (unorderedAll commands))
  | collection label template => collection { label with localName := "" } template.unordered
  | leaf label primitive => leaf { label with localName := "" } primitive
  | command label arguments essential pathArgument query =>
    command { label with localName := "" } (alphabetical (unorderedAll arguments)) essential
      pathArgument query
def unorderedAll : List Descriptor → List Descriptor
  | [] => []
  | d :: ds => d.unordered :: unorderedAll ds
end

theorem unorderedAll_eq (ds : List Descriptor) : unorderedAll ds = ds.map unordered := by
  induction ds with
  | nil => rfl
  | cons d ds ih => rw [unorderedAll, ih, List.map_cons]

@[simp] theorem unordered_remote (d : Descriptor) : d.unordered.remote = d.remote := by
  cases d <;> rfl

/-- Siblings with different remote names are in the same order when they are the same siblings. -/
theorem alphabetical_eq {ds es : List Descriptor} (hd : (ds.map remote).Nodup)
    (he : (es.map remote).Nodup) (h : ∀ d, d ∈ ds ↔ d ∈ es) :
    alphabetical ds = alphabetical es := by
  have hperm : ds.Perm es := (List.perm_ext_iff_of_nodup hd.of_map he.of_map).2 h
  exact sortOn_key_congr remote hperm fun d hd' e he' => List.inj_on_of_nodup_map hd hd' he'

end Descriptor

variable {options : Options} {d d' : Descriptor} {i j : Item} {ds ds' : List Descriptor}
  {items others : List Item} {R : Descriptor → Item → Prop} {entry found : Entry} {part : Section}

/-! ### Sections -/

theorem Entry.Reads.nodup (h : Reads part entry items) (hunique : (Json.obj entry).Unique) :
    (items.map Item.name).Nodup := by
  obtain ⟨listed, hlists, horder⟩ := h
  rw [(horder.perm.map Item.name).nodup_iff]
  rcases hlists with ⟨-, rfl⟩ | ⟨members, hget, hall⟩
  · exact List.nodup_nil
  · have hnames : listed.map Item.name = Keyed.names members := by
      rw [Keyed.names, eq_comm, ← List.forall₂_eq_eq_eq, List.forall₂_map_left_iff,
        List.forall₂_map_right_iff]
      exact hall.imp fun _ _ hitem => hitem.name
    rw [hnames]
    exact (hunique.member (Keyed.mem_of_get? hget)).distinct

theorem Entry.Agree.exists_item (h : entry.Agree found) (hi : Reads part entry items)
    (ho : Reads part found others) :
    (∀ i ∈ items, ∃ j ∈ others, i.Agree j) ∧ ∀ j ∈ others, ∃ i ∈ items, i.Agree j := by
  constructor
  · intro i hmem
    obtain ⟨j, hmem', hname⟩ := List.mem_map.1
      ((h.mem_names_iff hi ho i.name).1 (List.mem_map_of_mem hmem))
    exact ⟨j, hmem', agree_of_name h hi ho hmem hmem' hname.symm⟩
  · intro j hmem'
    obtain ⟨i, hmem, hname⟩ := List.mem_map.1
      ((h.mem_names_iff hi ho j.name).2 (List.mem_map_of_mem hmem'))
    exact ⟨i, hmem, agree_of_name h hi ho hmem hmem' hname⟩

theorem unorderedAll_remotes (hlabel : ∀ d i, R d i → d.label = ⟨i.name, d.localName, i.ordinal⟩)
    (h : List.Forall₂ R ds items) :
    (Descriptor.unorderedAll ds).map Descriptor.remote = items.map Item.name := by
  rw [Descriptor.unorderedAll_eq, List.map_map]
  induction h with
  | nil => rfl
  | cons hd _ ih =>
    rw [List.map_cons, List.map_cons, ih, Function.comp_apply, Descriptor.unordered_remote,
      Descriptor.remote, hlabel _ _ hd]

/-- Sections of entries that agree, apart from names that are passed over, come out the same. -/
theorem unorderedAll_eq_of_agree (hagree : entry.Agree found) (hi : Reads part entry items)
    (ho : Reads part found others) (keep : String → Bool)
    (h : List.Forall₂ R ds (items.filter fun i => keep i.name))
    (h' : List.Forall₂ R ds' (others.filter fun i => keep i.name))
    (hlabel : ∀ d i, R d i → d.label = ⟨i.name, d.localName, i.ordinal⟩)
    (heq : ∀ d ∈ ds, ∀ d' i j, R d i → R d' j → i.Agree j → d.unordered = d'.unordered) :
    Descriptor.alphabetical (Descriptor.unorderedAll ds) =
      Descriptor.alphabetical (Descriptor.unorderedAll ds') := by
  obtain ⟨hforth, hback⟩ := hagree.exists_item hi ho
  refine Descriptor.alphabetical_eq ?_ ?_ fun x => ?_
  · rw [unorderedAll_remotes hlabel h]
    exact (hi.nodup hagree.left).sublist (List.filter_sublist.map Item.name)
  · rw [unorderedAll_remotes hlabel h']
    exact (ho.nodup hagree.right).sublist (List.filter_sublist.map Item.name)
  · rw [Descriptor.unorderedAll_eq, Descriptor.unorderedAll_eq, List.mem_map, List.mem_map]
    constructor
    · rintro ⟨d, hd, rfl⟩
      obtain ⟨i, hmem, hdi⟩ := exists_of_mem_left h hd
      obtain ⟨hlisted, hkeep⟩ := List.mem_filter.1 hmem
      obtain ⟨j, hmem', hij⟩ := hforth i hlisted
      rw [hij.name] at hkeep
      obtain ⟨d', hd', hdj⟩ := exists_of_mem_right h' (List.mem_filter.2 ⟨hmem', hkeep⟩)
      exact ⟨d', hd', (heq d hd d' i j hdi hdj hij).symm⟩
    · rintro ⟨d', hd', rfl⟩
      obtain ⟨j, hmem', hdj⟩ := exists_of_mem_left h' hd'
      obtain ⟨hlisted, hkeep⟩ := List.mem_filter.1 hmem'
      obtain ⟨i, hmem, hij⟩ := hback j hlisted
      rw [← hij.name] at hkeep
      obtain ⟨d, hd, hdi⟩ := exists_of_mem_right h (List.mem_filter.2 ⟨hmem, hkeep⟩)
      exact ⟨d, hd, heq d hd d' i j hdi hdj hij⟩

/-! ### Positions -/

theorem DescribesLeaf.unordered_eq (hd : DescribesLeaf d i) (hd' : DescribesLeaf d' j)
    (h : i.Agree j) : d.unordered = d'.unordered := by
  obtain ⟨primitive, hshape, hshape'⟩ := hd.shapes_of_agree hd' h
  rw [hshape, hshape', Descriptor.unordered, Descriptor.unordered]

theorem DescribesCommand.unordered_eq (hd : DescribesCommand options d i)
    (hd' : DescribesCommand options d' j) (h : i.Agree j) : d.unordered = d'.unordered := by
  obtain ⟨listed, listed', arguments, arguments', essential, pathArgument, query, hreads, hreads',
    hleaves, hleaves', -, -, hshape, hshape'⟩ := hd.shapes_of_agree hd' h
  have harguments := unorderedAll_eq_of_agree h.entry hreads hreads'
    (fun name => name ≠ options.pathArgument) hleaves hleaves' (fun _ _ => DescribesLeaf.label_eq)
    fun _ _ _ _ _ ha ha' hij => ha.unordered_eq ha' hij
  rw [hshape, hshape', Descriptor.unordered, Descriptor.unordered, harguments]

def Members.unordered (members : Members) : Members :=
  ⟨Descriptor.alphabetical (Descriptor.unorderedAll members.properties),
    Descriptor.alphabetical (Descriptor.unorderedAll members.children),
    Descriptor.alphabetical (Descriptor.unorderedAll members.commands)⟩

theorem shaped_unordered (mark : Mark) (label : Label) (members : Members) :
    (shaped mark label members.properties members.children members.commands).unordered =
      shaped mark { label with localName := "" } members.unordered.properties
        members.unordered.children members.unordered.commands := by
  unfold shaped
  split
  · rw [Descriptor.unordered, Descriptor.unordered]
    rfl
  · rw [Descriptor.unordered]
    rfl

theorem Describes.unordered_eq_of_members (hd : Describes options d i)
    (hd' : Describes options d' j) (h : i.Agree j) {members members' : Members}
    (hmembers : d.members? = some members) (hmembers' : d'.members? = some members')
    (heq : members.unordered = members'.unordered) : d.unordered = d'.unordered := by
  obtain ⟨mark, hshape, hshape'⟩ := hd.shapes_of_agree hd' h hmembers hmembers'
  rw [hshape, hshape', shaped_unordered, shaped_unordered, heq]

/-- The induction follows the first tree. -/
theorem members_unordered_eq {members members' : Members} (hd : d.members? = some members)
    (hagree : entry.Agree found)
    (h : DescribesMembers options members.properties members.children members.commands
      (DescribesAll options members.children) entry)
    (h' : DescribesMembers options members'.properties members'.children members'.commands
      (DescribesAll options members'.children) found) :
    members.unordered = members'.unordered := by
  induction d generalizing members members' entry found with
  | container label properties children commands _ ih _ =>
    cases hd
    obtain ⟨parameters, inner, actions, hp, hc, hm, hproperties, hchildren, hcommands, -⟩ := h
    obtain ⟨parameters', inner', actions', hp', hc', hm', hproperties', hchildren', hcommands',
      -⟩ := h'
    rw [describesAll_iff] at hchildren hchildren'
    rw [← List.filter_true parameters] at hproperties
    rw [← List.filter_true parameters'] at hproperties'
    rw [← List.filter_true inner] at hchildren
    rw [← List.filter_true inner'] at hchildren'
    rw [← List.filter_true actions] at hcommands
    rw [← List.filter_true actions'] at hcommands'
    have hpeq := unorderedAll_eq_of_agree hagree hp hp' (fun _ => true) hproperties hproperties'
      (fun _ _ => DescribesLeaf.label_eq) fun _ _ _ _ _ hd hd' hij => hd.unordered_eq hd' hij
    have hmeq := unorderedAll_eq_of_agree hagree hm hm' (fun _ => true) hcommands hcommands'
      (fun _ _ => DescribesCommand.label_eq) fun _ _ _ _ _ hd hd' hij => hd.unordered_eq hd' hij
    have hceq := by
      refine unorderedAll_eq_of_agree hagree hc hc' (fun _ => true) hchildren hchildren'
        (fun _ _ => Describes.label_eq) ?_
      intro c hmem c' i j hdi hdj hij
      obtain ⟨inside, hinside, hmembers⟩ := hdi.members
      obtain ⟨inside', hinside', hmembers'⟩ := hdj.members
      exact hdi.unordered_eq_of_members hdj hij hinside hinside'
        (ih c hmem hinside hij.entry hmembers hmembers')
    simp only [Members.unordered, hpeq, hceq, hmeq]
  | collection label template ih => exact ih hd hagree h h'
  | leaf => cases hd
  | command => cases hd

/-- Positions of items that agree differ in the order of siblings and in local names at most. -/
theorem Describes.unordered_eq (hd : Describes options d i) (hd' : Describes options d' j)
    (h : i.Agree j) : d.unordered = d'.unordered := by
  obtain ⟨members, hmembers, hdescribes⟩ := hd.members
  obtain ⟨members', hmembers', hdescribes'⟩ := hd'.members
  exact hd.unordered_eq_of_members hd' h hmembers hmembers'
    (members_unordered_eq hmembers h.entry hdescribes hdescribes')

end SettingsTree
