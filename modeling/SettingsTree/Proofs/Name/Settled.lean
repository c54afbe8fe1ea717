import Mathlib.Order.Bounds.Basic
import SettingsTree.Proofs.Name.Siblings
import SettingsTree.Proofs.Name.SnakeCase
import SettingsTree.Proofs.Text.Lowercase

/-! # Local names are settled

Underscores are put behind a reserved name one by one, and only finitely many names are reserved, so
this ends, with as few underscores as possible. What comes out is in lower case, no word starts in
it, and it is not reserved. So the local name of a local name is the name itself.
-/

namespace SettingsTree.Name

open SettingsTree.Text

namespace Naming

/-- A name is freed: while it is reserved, an underscore is put behind it. -/
inductive Frees (naming : Naming) : String → String → Prop
  | free {name} : ¬naming.isReserved name → Frees naming name name
  | reserved {name result} : naming.isReserved name → Frees naming (name.push '_') result →
      Frees naming name result

variable {naming : Naming} {name result : String}

theorem pad_zero (name : String) : pad name 0 = name := by
  simp [pad]

theorem pad_succ (name : String) (count : Nat) :
    pad name (count + 1) = pad (name.push '_') count := by
  rw [← String.toList_inj]
  simp [pad, List.replicate_succ]

theorem frees_of_free (h : ¬naming.isReserved name) : naming.Frees name result ↔ result = name := by
  constructor
  · intro hfrees
    cases hfrees with
    | free => rfl
    | reserved hreserved => exact absurd hreserved h
  · rintro rfl
    exact .free h

theorem frees_of_reserved (h : naming.isReserved name) :
    naming.Frees name result ↔ naming.Frees (name.push '_') result := by
  constructor
  · intro hfrees
    cases hfrees with
    | free hfree => exact absurd h hfree
    | reserved _ hrest => exact hrest
  · exact .reserved h

/-- A name is freed by the least number of underscores with which it is not reserved. -/
theorem frees_iff {count : Nat} (least : IsLeast {k | ¬naming.isReserved (pad name k)} count) :
    naming.Frees name result ↔ result = pad name count := by
  obtain ⟨hfree, hbelow⟩ := least
  induction count generalizing name with
  | zero =>
    rw [pad_zero]
    apply frees_of_free
    simpa [pad_zero] using hfree
  | succ count ih =>
    have hreserved : naming.isReserved name := by
      by_contra hname
      have hzero := hbelow (a := 0) (by simpa [pad_zero] using hname)
      omega
    rw [frees_of_reserved hreserved, pad_succ]
    apply ih
    · simpa [pad_succ] using hfree
    · intro k hk
      have hnext := hbelow (a := k + 1) (by simpa [pad_succ] using hk)
      omega

theorem isLeast_leastFree (naming : Naming) (name : String) :
    IsLeast {k | ¬naming.isReserved (pad name k)} (leastFree naming.reserved (pad name)) := by
  obtain ⟨hfree, hbelow⟩ := leastFree_spec naming.reserved (pad_injective name)
  constructor
  · simpa [isReserved] using hfree
  · intro k hk
    by_contra hlt
    have hmem := hbelow k (by omega)
    simp [isReserved, hmem] at hk

end Naming

/-! ### Names in lower case -/

theorem underscored_eq_self {text : List Char} (h : ∀ c ∈ text, ¬isCapital c) :
    underscored startsWord text = text := by
  induction text with
  | nil => rfl
  | cons c rest ih =>
    obtain ⟨-, hrest⟩ := List.forall_mem_cons.1 h
    cases rest with
    | nil => rfl
    | cons d rest =>
      have hd : isCapital d = false := by simpa using hrest d List.mem_cons_self
      have hno : ¬startsWord c d rest.head? := by simp [startsWord, hd]
      rw [underscored_of_not_gap hno, ih hrest]

theorem snakeCase_of_settled {name : String} (h : ∀ c ∈ name.toList, Settled c) :
    snakeCase name = name := by
  have hcapitals : ∀ c ∈ name.toList, ¬isCapital c := fun c hc => (h c hc).not_isCapital
  rw [snakeCase, splitAcronyms_eq, splitWords_eq, underscored_underscored,
    underscored_eq_self hcapitals, lower_of_settled h, String.ofList_toList]

namespace Naming

variable (naming : Naming)

theorem settled_of_mem_localName {remote : String} {c : Char}
    (h : c ∈ (naming.localName remote).toList) : Settled c := by
  unfold localName at h
  split at h
  · simp at h
  · simp only [pad, snakeCase, String.toList_append, String.toList_ofList, List.mem_append] at h
    rcases h with h | h
    · exact settled_of_mem_lower h
    · obtain rfl := List.eq_of_mem_replicate h
      exact settled_of_ascii (by decide) (by decide)

theorem localName_eq_self {name : String} (hsnake : snakeCase name = name)
    (hfree : ¬naming.isReserved name) : naming.localName name = name := by
  have hnone : leastFree naming.reserved (pad name) = 0 := by
    rw [leastFree_eq_iff (pad_injective name), pad_zero]
    simpa [isReserved] using hfree
  unfold localName
  split
  · next hempty => exact hempty.symm
  · dsimp only
    rw [hsnake, hnone, pad_zero]

/-- To find the local name of a name underscores are put behind its snake-case form until it is not
reserved. This ends, with the least number of them that will do. The local name of a local name is
the name itself, whatever words are reserved. -/
theorem localName_least (naming : Naming) :
    (∀ remote, remote ≠ "" → ∃ count, IsLeast {k | pad (snakeCase remote) k ∉ reservedWords ∧
        pad (snakeCase remote) k ∉ naming.extra} count ∧
      naming.localName remote = pad (snakeCase remote) count ∧
      ∀ result, naming.Frees (snakeCase remote) result ↔ result = naming.localName remote) ∧
    ∀ remote, naming.localName (naming.localName remote) = naming.localName remote := by
  constructor
  · intro remote hremote
    have least := naming.isLeast_leastFree (snakeCase remote)
    have hpadded : naming.localName remote =
        pad (snakeCase remote) (leastFree naming.reserved (pad (snakeCase remote))) := by
      rw [localName, if_neg hremote]
    refine ⟨_, ?_, hpadded, fun result => ?_⟩
    · simpa only [naming.isReserved_iff, not_or] using least
    · rw [hpadded]
      exact frees_iff least
  · intro remote
    by_cases hremote : remote = ""
    · simp [localName, hremote]
    · have hsettled : ∀ c ∈ (naming.localName remote).toList, Settled c := fun c hc =>
        naming.settled_of_mem_localName hc
      apply naming.localName_eq_self (snakeCase_of_settled hsettled)
      exact naming.not_isReserved_localName hremote

/-- Words that are other reserved words with underscores are passed over one after the other. -/
theorem localName_class : "Class" ≠ "" ∧
    (⟨["class__", "class_", "class_"]⟩ : Naming).localName "Class" = "class___" ∧
    (⟨["class__", "class_", "class_"]⟩ : Naming).Frees "class" "class___" := by
  have hne : "Class" ≠ "" := by decide
  have hsnake : snakeCase "Class" = "class" := by decide +kernel
  obtain ⟨count, least, hpadded, hfrees⟩ :=
    (localName_least ⟨["class__", "class_", "class_"]⟩).1 "Class" hne
  rw [hsnake] at least hpadded hfrees
  have hbelow : ∀ k < 3, ¬(pad "class" k ∉ reservedWords ∧
      pad "class" k ∉ ["class__", "class_", "class_"]) := by decide +kernel
  have hthree : count = 3 := by
    apply least.unique
    constructor
    · decide +kernel
    · intro k hk
      by_contra hlt
      exact hbelow k (by omega) hk
  have hname : (⟨["class__", "class_", "class_"]⟩ : Naming).localName "Class" = "class___" := by
    rw [hpadded, hthree]
    decide +kernel
  exact ⟨hne, hname, (hfrees _).2 hname.symm⟩

end Naming

end SettingsTree.Name
