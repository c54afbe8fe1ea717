import SettingsTree.Proofs.Schema.Acceptance
import SettingsTree.Proofs.Schema.Agreement

/-! # Ties in the order of a section

Entries of a section with equal ordinals are tied: the document decides their order. When the
sections of two entries list the same names with the same ordinals, they are read in the same order
exactly when their ties are broken alike.
-/

namespace SettingsTree

/-- The name and the ordinal of an item: all that matters for its place among its siblings. -/
def Item.place (item : Item) : String × Int64 := (item.name, item.ordinal)

/-- Items in the same place of entries that agree. -/
structure Item.Agree (item other : Item) : Prop where
  name : item.name = other.name
  ordinal : item.ordinal = other.ordinal
  entry : item.entry.Agree other.entry

namespace Entry

/-- Among the items of a section whose names are not passed over, those with equal ordinals stand in
the same order in both documents. -/
def TiesAgree (part : Section) (keep : String → Bool) (entry other : Entry) : Prop :=
  ∀ listed found, Lists part entry listed → Lists part other found → ∀ ordinal,
    (listed.filter fun i => i.ordinal = ordinal && keep i.name).map Item.name =
      (found.filter fun i => i.ordinal = ordinal && keep i.name).map Item.name

/-- Ties are broken alike in every section that the compiler reads, at every depth. The argument
that receives the path is passed over. -/
inductive SameTies (options : Options) : Entry → Entry → Prop
  | intro {entry other : Entry}
      (parameters : TiesAgree .parameters (fun _ => true) entry other)
      (children : TiesAgree .children (fun _ => true) entry other)
      (commands : TiesAgree .commands (fun _ => true) entry other)
      (arguments : ∀ name inner found, Holds .commands entry name inner →
        Holds .commands other name found →
        TiesAgree .arguments (fun name => name ≠ options.pathArgument) inner found)
      (inside : ∀ name inner found, Holds .children entry name inner →
        Holds .children other name found → SameTies options inner found) :
      SameTies options entry other

variable {part : Section} {entry other : Entry} {items others : List Item}

theorem InOrder.filter_filter {listed : List Item} (h : InOrder listed items) (keep : String → Bool)
    (ordinal : Int64) :
    (items.filter fun i => keep i.name).filter (fun i => i.ordinal = ordinal) =
      listed.filter fun i => i.ordinal = ordinal && keep i.name := by
  have hcomm : (items.filter fun i => keep i.name).filter (fun i => i.ordinal = ordinal) =
      (items.filter fun i => i.ordinal = ordinal).filter fun i => keep i.name := by
    rw [List.filter_filter, List.filter_filter]
    congr 1
    funext i
    rw [Bool.and_comm]
  rw [hcomm, h.stable, List.filter_filter]
  congr 1
  funext i
  rw [Bool.and_comm]

theorem filter_place (items : List Item) (ordinal : Int64) :
    (items.map Item.place).filter (fun p => p.2 = ordinal) =
      ((items.filter fun i => i.ordinal = ordinal).map Item.name).map (·, ordinal) := by
  rw [List.filter_map, List.map_map]
  apply List.map_congr_left
  intro i hi
  have hordinal : i.ordinal = ordinal := of_decide_eq_true (List.mem_filter.1 hi).2
  rw [Item.place, hordinal]
  rfl

theorem places_eq_iff (hi : items.Pairwise fun a b => a.ordinal ≤ b.ordinal)
    (ho : others.Pairwise fun a b => a.ordinal ≤ b.ordinal) :
    items.map Item.place = others.map Item.place ↔
      ∀ ordinal, (items.filter fun i => i.ordinal = ordinal).map Item.name =
        (others.filter fun i => i.ordinal = ordinal).map Item.name := by
  constructor
  · intro h ordinal
    have hfilter := congrArg (List.filter fun p => p.2 = ordinal) h
    rw [filter_place, filter_place] at hfilter
    exact List.map_injective_iff.2 (fun _ _ heq => (Prod.mk.inj heq).1) hfilter
  · intro h
    have hsorted {l : List Item} (hl : l.Pairwise fun a b => a.ordinal ≤ b.ordinal) :
        (l.map Item.place).Pairwise fun a b => decide (a.2 ≤ b.2) = true := by
      rw [List.pairwise_map]
      exact hl.imp decide_eq_true
    have htied (c : String × Int64) :
        tied (fun a b : String × Int64 => decide (a.2 ≤ b.2)) c = fun p => decide (p.2 = c.2) :=
      tied_ordinal Prod.snd c
    have hrefl (p : String × Int64) : decide (p.2 ≤ p.2) = true := decide_eq_true (Int64.le_refl _)
    apply eq_of_pairwise_of_filter hrefl (hsorted hi) (hsorted ho)
    intro c _
    rw [htied, filter_place, filter_place, h]

/-- Sections are read in the same order exactly when their ties are broken alike. -/
theorem tiesAgree_iff (hi : Reads part entry items) (ho : Reads part other others)
    (keep : String → Bool) :
    TiesAgree part keep entry other ↔
      (items.filter fun i => keep i.name).map Item.place =
        (others.filter fun i => keep i.name).map Item.place := by
  obtain ⟨listed, hlisted, horder⟩ := hi
  obtain ⟨found, hfound, horder'⟩ := ho
  rw [places_eq_iff (horder.sorted.filter _) (horder'.sorted.filter _)]
  simp only [horder.filter_filter, horder'.filter_filter]
  constructor
  · intro h
    exact h listed found hlisted hfound
  · intro h listed' found' hlisted' hfound'
    rw [hlisted'.unique hlisted, hfound'.unique hfound]
    exact h

theorem allTiesAgree_iff (hi : Reads part entry items) (ho : Reads part other others) :
    TiesAgree part (fun _ => true) entry other ↔
      items.map Item.place = others.map Item.place := by
  rw [tiesAgree_iff hi ho, List.filter_true, List.filter_true]

theorem agree_of_name (h : entry.Agree other) (hi : Reads part entry items)
    (ho : Reads part other others) {i j : Item} (mi : i ∈ items) (mj : j ∈ others)
    (hname : i.name = j.name) : i.Agree j := by
  have hholds : Holds part entry i.name i.entry := (holds_iff hi).2 ⟨i, mi, rfl, rfl⟩
  have hother : Holds part other i.name j.entry := (holds_iff ho).2 ⟨j, mj, hname.symm, rfl⟩
  have hentry : i.entry.Agree j.entry := hholds.agree h hother
  obtain ⟨_, _, _, hordinal⟩ := hi.of_item mi
  obtain ⟨_, _, _, hordinal'⟩ := ho.of_item mj
  exact ⟨hname, ((hentry.hasOrdinal_iff _).1 hordinal).unique hordinal', hentry⟩

end Entry

end SettingsTree
