import SettingsTree.Proofs.Session.Reachable

/-! # Sessions that are gone for good

A session has ended when neither it nor its root is kept any more. Its number is not given out
again, and nothing that callers may keep leads back to its root. So a session that has ended stays
so, whatever callers do.
-/

namespace SettingsTree

namespace Memory

/-- A session was opened, and neither it nor its root is kept. -/
structure Ended (number : Nat) (memory : Memory) : Prop where
  opened : number < memory.fresh
  dropped : [.session number] ∉ memory.held

variable {memory later : Memory} {number : Nat} {name : String} {n : Node} {s : Session}
  {a : Address}

/-! ### What is kept -/

theorem held_keepSession (h : a ∈ (memory.keepSession name s).held) :
    a = s.root.address ∨ a ∈ memory.held := by
  rw [mem_held_iff] at h ⊢
  rcases h with ⟨entry, hentry, rfl⟩ | h
  · rcases Keyed.mem_insert hentry with rfl | hentry
    · exact Or.inl rfl
    · exact Or.inr (Or.inl ⟨entry, hentry, rfl⟩)
  · exact Or.inr (Or.inr h)

theorem held_keep (h : a ∈ (memory.keep name n).held) : a = n.address ∨ a ∈ memory.held := by
  rw [mem_held_iff] at h ⊢
  rcases h with h | ⟨entry, hentry, rfl⟩
  · exact Or.inr (Or.inl h)
  · rcases Keyed.mem_insert hentry with rfl | hentry
    · exact Or.inl rfl
    · exact Or.inr (Or.inr ⟨entry, hentry, rfl⟩)

theorem held_drop (h : a ∈ (memory.drop name).held) : a ∈ memory.held := by
  rw [mem_held_iff] at h ⊢
  rcases h with ⟨entry, hentry, rfl⟩ | ⟨entry, hentry, rfl⟩
  · exact Or.inl ⟨entry, List.mem_of_mem_filter hentry, rfl⟩
  · exact Or.inr ⟨entry, List.mem_of_mem_filter hentry, rfl⟩

/-! ### Steps and runs -/

theorem Becomes.ended {reg : Registry} (h : memory.Becomes reg later)
    (ended : memory.Ended number) : later.Ended number := by
  refine ⟨Nat.lt_of_lt_of_le ended.opened h.fresh_le, fun hmem => ended.dropped ?_⟩
  cases h with
  | grown grows => exact grows.held ▸ hmem
  | opened grows fits hnumber name =>
    rcases held_keepSession hmem with hroot | hmem
    · -- the new session has a number that was not given out yet
      cases hroot
      exact absurd hnumber (Nat.ne_of_lt ended.opened)
    · exact grows.held ▸ hmem
  | kept grows fits root name =>
    rcases held_keep hmem with hroot | hmem
    · exact root number hroot.symm
    · exact grows.held ▸ hmem
  | dropped sound name => exact held_drop hmem

end Memory

variable {σ : Type} {remote : Remote σ} {w v : World σ} {number : Nat}

/-- Callers got from one world to another. -/
def World.Leads (remote : Remote σ) (w v : World σ) : Prop :=
  ∃ actions, (Action.performAll remote actions w).2 = v

namespace World.Leads

theorem keeps {motive : Memory → Prop}
    (step : ∀ {reg memory after}, memory.Becomes reg after → motive memory → motive after)
    (leads : w.Leads remote v) (sound : ∃ reg, w.memory.Sound reg) (h : motive w.memory) :
    (∃ reg, v.memory.Sound reg) ∧ motive v.memory := by
  obtain ⟨actions, rfl⟩ := leads
  refine Action.performAll_keeps
    (motive := fun w => (∃ reg, w.memory.Sound reg) ∧ motive w.memory) ?_ actions ⟨sound, h⟩
  rintro action w ⟨⟨reg, sound⟩, h⟩
  have becomes := Action.perform_becomes remote sound action
  exact ⟨becomes.sound, step becomes h⟩

/-- A session that was open and is not kept any more has ended for good. -/
theorem ended {u : World σ} {key : String} {s : Session} (reachable : w.Reachable remote)
    (kept : Keyed.get? key w.memory.sessions = some s) (before : w.Leads remote u)
    (dropped : s.root.address ∉ u.memory.held) (after : u.Leads remote v) :
    v.memory.Ended s.number := by
  obtain ⟨reg, sound⟩ := reachable.sound
  have opened : s.number < w.memory.fresh := (sound.sessions key s (Keyed.mem_of_get? kept)).1
  obtain ⟨sound', opened'⟩ := before.keeps (motive := fun memory => s.number < memory.fresh)
    (fun becomes hlt => Nat.lt_of_lt_of_le hlt becomes.fresh_le) ⟨reg, sound⟩ opened
  exact (after.keeps (fun becomes => becomes.ended) sound' ⟨opened', dropped⟩).2

end World.Leads

end SettingsTree
