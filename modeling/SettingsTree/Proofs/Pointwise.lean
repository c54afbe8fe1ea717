import Mathlib.Data.List.Forall2
import Mathlib.Data.List.Perm.Basic

/-! # Lists related one by one, and computations that succeed at every element -/

namespace SettingsTree

section

variable {α β : Type} {R : α → β → Prop}

theorem exists_of_mem_left {as : List α} {bs : List β} (h : List.Forall₂ R as bs) {a : α}
    (ha : a ∈ as) : ∃ b ∈ bs, R a b := by
  induction h with
  | nil => simp at ha
  | cons hab _ ih =>
    rcases List.mem_cons.1 ha with rfl | ha
    · exact ⟨_, List.mem_cons_self, hab⟩
    · obtain ⟨b, hb, hab⟩ := ih ha
      exact ⟨b, List.mem_cons_of_mem _ hb, hab⟩

theorem exists_of_mem_right {as : List α} {bs : List β} (h : List.Forall₂ R as bs) {b : β}
    (hb : b ∈ bs) : ∃ a ∈ as, R a b := exists_of_mem_left h.flip hb

theorem forall₂_imp_of_mem {S : α → β → Prop} {as : List α} {bs : List β}
    (h : List.Forall₂ R as bs) (himp : ∀ a ∈ as, ∀ b ∈ bs, R a b → S a b) :
    List.Forall₂ S as bs := by
  induction h with
  | nil => exact .nil
  | cons hab _ ih =>
    refine .cons (himp _ List.mem_cons_self _ List.mem_cons_self hab) (ih fun a ha b hb => ?_)
    exact himp a (List.mem_cons_of_mem _ ha) b (List.mem_cons_of_mem _ hb)

theorem exists_forall₂ {as : List α} (h : ∀ a ∈ as, ∃ b, R a b) :
    ∃ bs, List.Forall₂ R as bs := by
  induction as with
  | nil => exact ⟨[], .nil⟩
  | cons a as ih =>
    obtain ⟨b, hab⟩ := h a List.mem_cons_self
    obtain ⟨bs, has⟩ := ih fun a ha => h a (List.mem_cons_of_mem _ ha)
    exact ⟨b :: bs, .cons hab has⟩

theorem perm_flatMap {γ : Type} {F : α → List γ} {G : β → List γ} {as : List α} {bs : List β}
    (h : List.Forall₂ (fun a b => (F a).Perm (G b)) as bs) :
    (as.flatMap F).Perm (bs.flatMap G) := by
  induction h with
  | nil => exact List.Perm.refl _
  | cons hab _ ih => exact hab.append ih

/-- Lists that differ in order only when seen through `g`, put together from blocks that differ in
order only when `g` does not tell their elements apart. -/
theorem perm_flatMap_of_map {γ : Type} {g : α → β} {F : α → List γ} {as bs : List α}
    (h : (as.map g).Perm (bs.map g)) (hF : ∀ a ∈ as, ∀ b, g a = g b → (F a).Perm (F b)) :
    (as.flatMap F).Perm (bs.flatMap F) := by
  have hseen : List.Forall₂ (fun seen b => seen = g b) (bs.map g) bs :=
    List.forall₂_map_left_iff.2 (List.forall₂_same.2 fun _ _ => rfl)
  obtain ⟨cs, hcs, hperm⟩ := List.perm_comp_forall₂ h hseen
  have hblocks := forall₂_imp_of_mem (List.forall₂_map_left_iff.1 hcs) fun a ha c _ => hF a ha c
  exact (perm_flatMap hblocks).trans (hperm.flatMap_right F)

theorem filterMap_map_sublist {γ : Type} {f : α → Option β} {g : β → γ} {h : α → γ}
    (hf : ∀ a b, f a = some b → g b = h a) (l : List α) :
    ((l.filterMap f).map g).Sublist (l.map h) := by
  induction l with
  | nil => exact List.Sublist.refl _
  | cons a rest ih =>
    rw [List.filterMap_cons]
    split
    · exact ih.cons _
    · next b hb =>
      rw [List.map_cons, List.map_cons, hf a b hb]
      exact ih.cons_cons _

end

/-! ### When a computation that may fail succeeds -/

section

variable {α β ε : Type}

theorem bind_eq_ok_iff {x : Except ε α} {f : α → Except ε β} {b : β} :
    (x >>= f) = .ok b ↔ ∃ a, x = .ok a ∧ f a = .ok b := by
  cases x <;> simp [bind, Except.bind]

theorem map_eq_ok_iff {x : Except ε α} {f : α → β} {b : β} :
    x.map f = .ok b ↔ ∃ a, x = .ok a ∧ f a = b := by
  cases x <;> simp [Except.map]

theorem eq_of_eq_ok {x : Except ε α} {a b : α} (ha : x = .ok a) (hb : x = .ok b) : a = b := by
  rw [ha, Except.ok.injEq] at hb
  exact hb

@[simp] theorem pure_eq_ok_iff {a b : α} : (pure a : Except ε α) = .ok b ↔ a = b := by
  simp [pure, Except.pure]

theorem mapM_eq_ok_iff {f : α → Except ε β} {as : List α} {bs : List β} :
    as.mapM f = .ok bs ↔ List.Forall₂ (fun a b => f a = .ok b) as bs := by
  induction as generalizing bs with
  | nil => cases bs <;> simp [pure, Except.pure]
  | cons a as ih =>
    rw [List.mapM_cons, bind_eq_ok_iff]
    constructor
    · rintro ⟨b, hb, h⟩
      obtain ⟨rest, hrest, h⟩ := bind_eq_ok_iff.1 h
      rw [pure_eq_ok_iff] at h
      subst h
      exact List.Forall₂.cons hb (ih.1 hrest)
    · intro h
      cases h with
      | cons hb hrest =>
        exact ⟨_, hb, bind_eq_ok_iff.2 ⟨_, ih.2 hrest, rfl⟩⟩

theorem mapM_eq_some {f : α → Option β} {g : α → β} {as : List α} (h : ∀ a ∈ as, f a = some (g a)) :
    as.mapM f = some (as.map g) := by
  induction as with
  | nil => rfl
  | cons a as ih =>
    rw [List.forall_mem_cons] at h
    rw [List.mapM_cons, h.1, ih h.2]
    rfl

end

end SettingsTree
