import Mathlib.Data.List.Nodup
import Mathlib.Data.List.Perm.Basic
import SettingsTree.Keyed

/-! # Laws of named entries

Reading after writing, and writing many entries at once. Entries with pairwise different names are
written one behind the other.
-/

namespace SettingsTree.Keyed

variable {α β : Type}

@[simp] theorem get?_nil (name : String) : get? name ([] : Keyed α) = none := rfl

theorem get?_cons (name : String) (entry : String × α) (rest : Keyed α) :
    get? name (entry :: rest) = if entry.1 = name then some entry.2 else get? name rest := rfl

@[simp] theorem get?_cons_self (name : String) (value : α) (rest : Keyed α) :
    get? name ((name, value) :: rest) = some value := by simp [get?_cons]

@[simp] theorem names_nil : names ([] : Keyed α) = [] := rfl

@[simp] theorem names_cons (entry : String × α) (rest : Keyed α) :
    names (entry :: rest) = entry.1 :: names rest := rfl

@[simp] theorem names_append (entries more : Keyed α) :
    names (entries ++ more) = names entries ++ names more := List.map_append

theorem mem_names_of_mem {entry : String × α} {entries : Keyed α} (h : entry ∈ entries) :
    entry.1 ∈ names entries := List.mem_map_of_mem h

theorem get?_eq_none_iff {name : String} {entries : Keyed α} :
    get? name entries = none ↔ name ∉ names entries := by
  induction entries with
  | nil => simp
  | cons entry rest ih =>
    by_cases h : entry.1 = name
    · simp [get?_cons, h]
    · simp [get?_cons, h, ih, Ne.symm h]

theorem mem_of_get? {name : String} {value : α} {entries : Keyed α}
    (h : get? name entries = some value) : (name, value) ∈ entries := by
  induction entries with
  | nil => simp at h
  | cons entry rest ih =>
    rw [get?_cons] at h
    split at h
    · next hname =>
      cases h
      subst hname
      exact List.mem_cons_self
    · exact List.mem_cons_of_mem _ (ih h)

theorem get?_of_mem {name : String} {value : α} {entries : Keyed α} (distinct : Distinct entries)
    (h : (name, value) ∈ entries) : get? name entries = some value := by
  induction entries with
  | nil => simp at h
  | cons entry rest ih =>
    obtain ⟨fresh, distinct⟩ := List.nodup_cons.1 distinct
    rcases List.mem_cons.1 h with rfl | h
    · simp
    · have hne : entry.1 ≠ name := by
        intro he
        exact fresh (he ▸ mem_names_of_mem h)
      rw [get?_cons, if_neg hne]
      exact ih distinct h

theorem get?_eq_some_iff {name : String} {value : α} {entries : Keyed α}
    (distinct : Distinct entries) : get? name entries = some value ↔ (name, value) ∈ entries :=
  ⟨mem_of_get?, get?_of_mem distinct⟩

/-- Entries differ in their order only when the same is found under every name. -/
theorem perm_iff_get? {entries more : Keyed α} (h : Distinct entries) (h' : Distinct more) :
    entries.Perm more ↔ ∀ name, get? name entries = get? name more := by
  rw [List.perm_ext_iff_of_nodup (List.Nodup.of_map _ h) (List.Nodup.of_map _ h')]
  constructor
  · intro hmem name
    refine Option.ext fun value => ?_
    rw [get?_eq_some_iff h, get?_eq_some_iff h', hmem]
  · rintro hget ⟨name, value⟩
    rw [← get?_eq_some_iff h, ← get?_eq_some_iff h', hget]

theorem get?_map (name : String) (f : α → β) (entries : Keyed α) :
    get? name (entries.map fun e => (e.1, f e.2)) = (get? name entries).map f := by
  induction entries with
  | nil => rfl
  | cons entry rest ih =>
    rw [List.map_cons, get?_cons, get?_cons, ih]
    split <;> rfl

theorem has_eq_false_iff {name : String} {entries : Keyed α} :
    has name entries = false ↔ get? name entries = none := by
  unfold has
  cases get? name entries <;> simp

/-- Entries that are passed over do not matter for a name whose entries are all kept. -/
theorem get?_filter {name : String} {keep : String × α → Bool} {entries : Keyed α}
    (h : ∀ entry ∈ entries, entry.1 = name → keep entry = true) :
    get? name (entries.filter keep) = get? name entries := by
  induction entries with
  | nil => rfl
  | cons entry rest ih =>
    have hrest := ih fun e he => h e (List.mem_cons_of_mem _ he)
    by_cases hk : keep entry = true
    · rw [List.filter_cons_of_pos hk, get?_cons, get?_cons, hrest]
    · have hne : entry.1 ≠ name := fun he => hk (h entry List.mem_cons_self he)
      rw [List.filter_cons_of_neg hk, get?_cons, if_neg hne, hrest]

theorem get?_erase (name other : String) (entries : Keyed α) :
    get? name (erase other entries) = if name = other then none else get? name entries := by
  split
  · next h =>
    subst h
    rw [get?_eq_none_iff, names, erase]
    simp
  · next h =>
    refine get?_filter fun entry _ hname => ?_
    rw [hname]
    simpa using h

theorem distinct_toList (name : String) (f : α → β) (value : Option α) :
    Distinct (value.toList.map fun v => (name, f v)) := by
  cases value <;> simp [Distinct]

theorem Distinct.filter {entries : Keyed α} (distinct : Distinct entries)
    (keep : String × α → Bool) : Distinct (entries.filter keep) :=
  List.Nodup.sublist (List.filter_sublist.map Prod.fst) distinct

theorem filter_name_eq (name : String) {entries : Keyed α} (distinct : Distinct entries) :
    entries.filter (fun e => e.1 = name) = (get? name entries).toList.map (name, ·) := by
  induction entries with
  | nil => rfl
  | cons entry rest ih =>
    obtain ⟨fresh, distinct⟩ := List.nodup_cons.1 distinct
    by_cases h : entry.1 = name
    · subst h
      have hnone : get? entry.1 rest = none := get?_eq_none_iff.2 fresh
      simp [get?_cons, ih distinct, hnone]
    · simp [get?_cons, h, ih distinct]

/-- Entries whose names come in a given sequence are read off name by name. -/
theorem flatMap_get?_eq {γ : Type} {f : γ → String} {l : List γ} {entries : Keyed α}
    (h : (names entries).Sublist (l.map f)) (nodup : (l.map f).Nodup) :
    (l.flatMap fun c => (get? (f c) entries).toList.map (f c, ·)) = entries := by
  induction l generalizing entries with
  | nil => exact (List.map_eq_nil_iff.1 (List.sublist_nil.1 h)).symm
  | cons c l ih =>
    rw [List.map_cons, List.nodup_cons] at nodup
    rw [List.flatMap_cons]
    rcases List.sublist_cons_iff.1 h with h | ⟨rest, hrest, h⟩
    · rw [get?_eq_none_iff.2 fun hmem => nodup.1 (h.subset hmem), ih h nodup.2]
      rfl
    · cases entries with
      | nil => simp at hrest
      | cons entry entries =>
        rw [names_cons, List.cons.injEq] at hrest
        obtain ⟨hname, rfl⟩ := hrest
        have hskip : ∀ x ∈ l, get? (f x) (entry :: entries) = get? (f x) entries := by
          intro x hx
          rw [get?_cons, if_neg]
          exact fun heq => nodup.1 (hname ▸ heq ▸ List.mem_map_of_mem hx)
        rw [get?_cons, if_pos hname, ← hname]
        have htail := ih h nodup.2
        rw [List.flatMap_congr fun x hx => by rw [hskip x hx], htail]
        rfl

/-- Entries with different names, all of which are in a given list, are read off name by name,
though not in the order in which they stand. -/
theorem perm_flatMap_get? {γ : Type} {f : γ → String} {l : List γ} {entries : Keyed α}
    (distinct : Distinct entries) (h : ∀ name ∈ names entries, name ∈ l.map f)
    (nodup : (l.map f).Nodup) :
    entries.Perm (l.flatMap fun c => (get? (f c) entries).toList.map (f c, ·)) := by
  induction l generalizing entries with
  | nil =>
    cases entries with
    | nil => exact List.Perm.refl _
    | cons entry rest => simpa using h entry.1 List.mem_cons_self
  | cons c l ih =>
    rw [List.map_cons, List.nodup_cons] at nodup
    have hnames : ∀ name ∈ names (erase (f c) entries), name ∈ l.map f := by
      intro name hname
      obtain ⟨entry, hentry, rfl⟩ := List.mem_map.1 hname
      obtain ⟨hmem, hne⟩ := List.mem_filter.1 hentry
      have hcons := h entry.1 (mem_names_of_mem hmem)
      rw [List.map_cons, List.mem_cons] at hcons
      exact hcons.resolve_left (by simpa using hne)
    have hskip : ∀ x ∈ l, get? (f x) (erase (f c) entries) = get? (f x) entries := by
      intro x hx
      rw [get?_erase, if_neg]
      exact fun heq => nodup.1 (heq ▸ List.mem_map_of_mem hx)
    have hrest : (erase (f c) entries).Perm _ := ih (distinct.filter _) hnames nodup.2
    rw [List.flatMap_congr fun x hx => by rw [hskip x hx]] at hrest
    have hsplit := List.filter_append_perm (fun e : String × α => decide (e.1 = f c)) entries
    rw [filter_name_eq _ distinct] at hsplit
    rw [List.flatMap_cons]
    refine hsplit.symm.trans (List.Perm.append_left _ ?_)
    simpa [erase] using hrest

theorem insert_of_not_mem {name : String} {entries : Keyed α} (h : name ∉ names entries)
    (value : α) : insert name value entries = entries ++ [(name, value)] := by
  induction entries with
  | nil => rfl
  | cons entry rest ih =>
    rw [names_cons, List.mem_cons, not_or] at h
    rw [insert, if_neg (Ne.symm h.1), ih h.2]
    rfl

theorem exists_append_of_get? {name : String} {old : α} {entries : Keyed α}
    (h : get? name entries = some old) : ∃ before after, entries = before ++ (name, old) :: after ∧
      ∀ value, insert name value entries = before ++ (name, value) :: after := by
  induction entries with
  | nil => simp at h
  | cons entry rest ih =>
    rw [get?_cons] at h
    split at h
    · next hname =>
      cases h
      subst hname
      exact ⟨[], rest, rfl, fun value => by simp [insert]⟩
    · next hname =>
      obtain ⟨before, after, rfl, hinsert⟩ := ih h
      exact ⟨entry :: before, after, rfl, fun value => by simp [insert, hname, hinsert]⟩

theorem names_insert_of_mem {name : String} {entries : Keyed α} (h : name ∈ names entries)
    (value : α) : names (insert name value entries) = names entries := by
  induction entries with
  | nil => simp at h
  | cons entry rest ih =>
    rw [insert]
    split
    · next heq => rw [names_cons, names_cons, heq]
    · next hne => rw [names_cons, names_cons, ih (List.mem_of_ne_of_mem (Ne.symm hne) h)]

theorem mem_insert {name : String} {value : α} {entries : Keyed α} {entry : String × α}
    (h : entry ∈ insert name value entries) : entry = (name, value) ∨ entry ∈ entries := by
  induction entries with
  | nil => exact Or.inl (List.mem_singleton.1 h)
  | cons first rest ih =>
    rw [insert] at h
    split at h
    · rcases List.mem_cons.1 h with rfl | h
      · exact Or.inl rfl
      · exact Or.inr (List.mem_cons_of_mem _ h)
    · rcases List.mem_cons.1 h with rfl | h
      · exact Or.inr List.mem_cons_self
      · exact (ih h).imp_right (List.mem_cons_of_mem _)

theorem get?_insert (name written : String) (value : α) (entries : Keyed α) :
    get? name (insert written value entries) =
      if written = name then some value else get? name entries := by
  induction entries with
  | nil => rfl
  | cons entry rest ih =>
    rw [insert]
    split
    · next h =>
      rw [get?_cons, get?_cons, h]
      split <;> rfl
    · next h =>
      rw [get?_cons, get?_cons, ih]
      split
      · next hname => rw [if_neg (fun hw => h (hname.trans hw.symm))]
      · rfl

theorem mem_names_insert {name written : String} {value : α} {entries : Keyed α}
    (h : name ∈ names (insert written value entries)) : name = written ∨ name ∈ names entries := by
  obtain ⟨entry, hentry, rfl⟩ := List.mem_map.1 h
  exact (mem_insert hentry).imp (congrArg Prod.fst) mem_names_of_mem

theorem Distinct.insert {entries : Keyed α} (distinct : Distinct entries) (name : String)
    (value : α) : Distinct (insert name value entries) := by
  induction entries with
  | nil => simp [Distinct, Keyed.insert]
  | cons entry rest ih =>
    obtain ⟨fresh, hrest⟩ := List.nodup_cons.1 distinct
    rw [Keyed.insert]
    split
    · next h =>
      rw [h] at fresh
      exact List.nodup_cons.2 ⟨fresh, hrest⟩
    · next h =>
      refine List.nodup_cons.2 ⟨fun hmem => ?_, ih hrest⟩
      exact (mem_names_insert hmem).elim h fresh

theorem get?_append (name : String) (entries more : Keyed α) :
    get? name (entries ++ more) = (get? name entries).or (get? name more) := by
  induction entries with
  | nil => simp
  | cons entry rest ih =>
    rw [List.cons_append, get?_cons, get?_cons, ih]
    split <;> rfl

@[simp] theorem insertAll_nil (entries : Keyed α) : insertAll entries [] = entries := rfl

@[simp] theorem insertAll_cons (entries : Keyed α) (entry : String × α) (more : Keyed α) :
    insertAll entries (entry :: more) = insertAll (insert entry.1 entry.2 entries) more := rfl

theorem insertAll_append (entries first second : Keyed α) :
    insertAll entries (first ++ second) = insertAll (insertAll entries first) second :=
  List.foldl_append

/-- Entries whose names are all different, also from the ones that are there, go to the end. -/
theorem insertAll_of_distinct {entries more : Keyed α} (h : Distinct (entries ++ more)) :
    insertAll entries more = entries ++ more := by
  induction more generalizing entries with
  | nil => simp
  | cons entry rest ih =>
    have hfresh : entry.1 ∉ names entries := by
      intro hmem
      rw [Distinct, names_append, List.nodup_append] at h
      exact h.2.2 _ hmem _ List.mem_cons_self rfl
    rw [insertAll_cons, insert_of_not_mem hfresh, ih (by simpa using h)]
    simp

theorem ofList_of_distinct {entries : Keyed α} (h : Distinct entries) : ofList entries = entries :=
  insertAll_of_distinct h

def last? (name : String) (entries : List (String × α)) : Option α := get? name entries.reverse

theorem last?_eq_none_iff {name : String} {entries : List (String × α)} :
    last? name entries = none ↔ name ∉ names entries := by
  rw [last?, get?_eq_none_iff, names, List.map_reverse, List.mem_reverse, names]

/-- What was written last is read, and before that what was there. -/
theorem get?_insertAll (name : String) (entries more : Keyed α) :
    get? name (insertAll entries more) = (last? name more).or (get? name entries) := by
  induction more generalizing entries with
  | nil => rfl
  | cons entry rest ih =>
    rw [insertAll_cons, ih, get?_insert, last?, last?, List.reverse_cons, get?_append,
      Option.or_assoc, get?_cons, get?_nil]
    split <;> rfl

theorem get?_ofList (name : String) (entries : List (String × α)) :
    get? name (ofList entries) = last? name entries := by
  rw [ofList, get?_insertAll, get?_nil, Option.or_none]

/-- Writing does not change in what order names are found. -/
theorem find?_names_insertAll (p : String → Bool) (entries more : Keyed α) :
    (names (insertAll entries more)).find? p = (names entries ++ names more).find? p := by
  induction more generalizing entries with
  | nil => simp
  | cons entry rest ih =>
    rw [insertAll_cons, ih, names_cons]
    by_cases hmem : entry.1 ∈ names entries
    · rw [names_insert_of_mem hmem, List.find?_append, List.find?_append, List.find?_cons]
      cases hp : p entry.1 with
      | false => rfl
      | true =>
        -- the name was written before, so a name that is sought was found before it
        obtain ⟨first, hfirst⟩ := Option.isSome_iff_exists.1 (List.find?_isSome.2 ⟨_, hmem, hp⟩)
        rw [hfirst]
        rfl
    · rw [insert_of_not_mem hmem]
      simp

theorem find?_names_ofList (p : String → Bool) (entries : List (String × α)) :
    (names (ofList entries)).find? p = (names entries).find? p := find?_names_insertAll p [] entries

theorem ofList_eq_nil_iff {entries : List (String × α)} : ofList entries = [] ↔ entries = [] := by
  constructor
  · intro h
    cases entries with
    | nil => rfl
    | cons entry rest =>
      -- the first name would be found among those that were written
      have hfirst := find?_names_ofList (fun _ => true) (entry :: rest)
      rw [h] at hfirst
      simp at hfirst
  · rintro rfl
    rfl

theorem mem_names_ofList {name : String} {entries : List (String × α)} :
    name ∈ names (ofList entries) ↔ name ∈ names entries := by
  rw [← not_iff_not, ← get?_eq_none_iff, get?_ofList, last?_eq_none_iff]

/-- When as many entries are left as were written, none was written over another one. -/
theorem distinct_of_ofList {entries : List (String × α)} (distinct : Distinct (ofList entries))
    (h : entries.length ≤ (ofList entries).length) : Distinct entries := by
  have hsub : (names (ofList entries)).Subperm (names entries) :=
    List.subperm_of_subset distinct fun _ => mem_names_ofList.1
  exact (hsub.perm_of_length_le (by simpa [names] using h)).nodup_iff.1 distinct

/-! ### Entries in blocks

Entries are often put together from blocks, each under a name of its own. When a rule `kind` tells
from an entry's name to which block it belongs, the blocks can be taken apart again.
-/

theorem filter_flatMap_eq {γ : Type} {blocks : Keyed (List γ)} {kind : γ → String}
    (h : ∀ block ∈ blocks, ∀ e ∈ block.2, kind e = block.1) (distinct : Distinct blocks)
    {name : String} {block : List γ} (mem : (name, block) ∈ blocks) :
    (blocks.flatMap Prod.snd).filter (fun e => kind e = name) = block := by
  induction blocks with
  | nil => simp at mem
  | cons first rest ih =>
    obtain ⟨fresh, hdistinct⟩ := List.nodup_cons.1 distinct
    have hrest := fun b hb => h b (List.mem_cons_of_mem _ hb)
    have hfirst := h first List.mem_cons_self
    rw [List.flatMap_cons, List.filter_append]
    rcases List.mem_cons.1 mem with heq | mem
    · subst heq
      have hnone : (rest.flatMap Prod.snd).filter (fun e => kind e = name) = [] := by
        rw [List.filter_eq_nil_iff]
        intro e he hkind
        obtain ⟨b, hb, he⟩ := List.mem_flatMap.1 he
        rw [decide_eq_true_eq, hrest b hb e he] at hkind
        exact fresh (List.mem_map.2 ⟨b, hb, hkind⟩)
      rw [hnone, List.append_nil]
      exact List.filter_eq_self.2 fun e he => decide_eq_true (hfirst e he)
    · have hnone : first.2.filter (fun e => kind e = name) = [] := by
        rw [List.filter_eq_nil_iff]
        intro e he hkind
        rw [decide_eq_true_eq, hfirst e he] at hkind
        exact fresh (List.mem_map.2 ⟨_, mem, hkind.symm⟩)
      rw [hnone, List.nil_append]
      exact ih hrest hdistinct mem

theorem get?_flatMap {blocks : Keyed (Keyed α)} {kind : String → String}
    (h : ∀ block ∈ blocks, ∀ e ∈ block.2, kind e.1 = block.1) (distinct : Distinct blocks)
    {name : String} (self : kind name = name) {block : Keyed α} (mem : (name, block) ∈ blocks) :
    get? name (blocks.flatMap Prod.snd) = get? name block := by
  have hkeep : ∀ e ∈ blocks.flatMap Prod.snd, e.1 = name → decide (kind e.1 = name) = true := by
    intro e _ he
    rw [he, self, decide_eq_true_eq]
  rw [← get?_filter hkeep, filter_flatMap_eq h distinct mem]

theorem distinct_flatMap {blocks : Keyed (Keyed α)} {kind : String → String}
    (h : ∀ block ∈ blocks, ∀ e ∈ block.2, kind e.1 = block.1) (distinct : Distinct blocks)
    (inner : ∀ block ∈ blocks, Distinct block.2) : Distinct (blocks.flatMap Prod.snd) := by
  induction blocks with
  | nil => exact List.nodup_nil
  | cons first rest ih =>
    obtain ⟨fresh, hdistinct⟩ := List.nodup_cons.1 distinct
    have hrest := fun b hb => h b (List.mem_cons_of_mem _ hb)
    rw [List.flatMap_cons, Distinct, names_append, List.nodup_append]
    refine ⟨inner first List.mem_cons_self,
      ih hrest hdistinct fun b hb => inner b (List.mem_cons_of_mem _ hb), ?_⟩
    intro name hname other hother heq
    obtain ⟨e, he, rfl⟩ := List.mem_map.1 hname
    obtain ⟨e', he', rfl⟩ := List.mem_map.1 hother
    obtain ⟨b, hb, he'⟩ := List.mem_flatMap.1 he'
    apply fresh
    rw [← h first List.mem_cons_self e he, heq, hrest b hb e' he']
    exact mem_names_of_mem hb

end SettingsTree.Keyed
