import SettingsTree.Proofs.Schema.Unordered
import SettingsTree.Schema.Selection

/-! # What reuse of a shipped schema amounts to

A shipped schema is reused when its digests are those of the raw schema and of the options. As far
as the digest tells texts apart, the two raw schemas are then alike and the options agree. So the
raw schema compiles, and to the tree that was shipped, except that entries with equal ordinals may
stand in another order: the digest does not depend on the order of a document, but the tree does.
-/

namespace SettingsTree

open Entry Name

section

variable {raw₀ raw : Json} {root₀ rootType : String} {options₀ options : Options}
  {shipped : Compiled} {selected : Selected}

theorem fallback?_eq_none_iff :
    shipped.fallback? raw rootType options = none ↔
      shipped.digest = raw.digest ∧ shipped.rootType = rootType ∧
        shipped.options = options.digest := by
  rw [Compiled.fallback?, Option.map_eq_none_iff, Compiled.mismatch?]
  by_cases hdigest : shipped.digest = raw.digest
  · by_cases hroot : shipped.rootType = rootType
    · by_cases hoptions : shipped.options = options.digest <;> simp [hdigest, hroot, hoptions]
    · simp [hdigest, hroot]
  · simp [hdigest]

theorem compileSelected_origin (h : compileSelected raw rootType options = .ok selected) :
    selected.origin = .compiled := by
  unfold compileSelected at h
  cases hschema : compile raw rootType options with
  | error fault => simp [hschema, Except.map] at h
  | ok schema =>
    rw [hschema] at h
    cases h
    rfl

/-- A shipped schema is reused exactly when nothing about it has changed. -/
theorem select_reused_iff :
    ((select raw rootType (some shipped) options).2 = .ok selected ∧ selected.origin = .reused) ↔
      selected = ⟨shipped, .reused⟩ ∧ shipped.digest = raw.digest ∧ shipped.rootType = rootType ∧
        shipped.options = options.digest := by
  rw [← fallback?_eq_none_iff]
  cases hfallback : shipped.fallback? raw rootType options with
  | none =>
    simp only [select, hfallback, Except.ok.injEq, and_true]
    constructor
    · rintro ⟨rfl, -⟩
      rfl
    · rintro rfl
      exact ⟨rfl, rfl⟩
  | some report =>
    simp only [select, hfallback, reduceCtorEq, and_false, iff_false, not_and]
    intro hcompiled horigin
    rw [compileSelected_origin hcompiled] at horigin
    exact Origin.noConfusion horigin

/-! ### Schemas that agree -/

variable {entry₀ entry : Entry}

theorem agree_of_alike {top₀ top : Keyed Json} (hraw₀ : (Json.obj top₀).Unique)
    (hraw : (Json.obj top).Unique) (halike : Json.Alike (.obj top₀) (.obj top))
    (hget : Keyed.get? rootType top₀ = some (.obj entry₀)) :
    ∃ entry, Keyed.get? rootType top = some (.obj entry) ∧ entry₀.Agree entry := by
  have htops : Entry.Agree top₀ top := ⟨hraw₀, hraw, halike⟩
  obtain ⟨entry, hentry⟩ := htops.object_iff.1 ⟨entry₀, hget⟩
  exact ⟨entry, hentry, htops.inner hget hentry⟩

theorem validSchema_of_agree {top : Keyed Json} {d : Descriptor} {ordinal : Int64}
    (hget : Keyed.get? rootType top = some (.obj entry)) (hagree : entry₀.Agree entry)
    (hoptions : options₀.Agree options) (hordinal : entry₀.HasOrdinal ordinal)
    (hfixed : entry₀.IsFixed) (h : Describes options₀ d ⟨rootType, entry₀, ordinal⟩) :
    ValidSchema options rootType (.obj top) := by
  have hmembers : entry.ValidMembers options :=
    (validMembers_of_describes h).of_agree hoptions.pathArgument hagree
  exact ⟨top, entry, rfl, hget, hagree.isFixed_iff.1 hfixed,
    ⟨ordinal, (hagree.hasOrdinal_iff ordinal).1 hordinal⟩, hmembers⟩

/-- Schemas that are alike compile alike, up to the order of siblings and their local names, and to
the same tree exactly when their ties are broken alike. -/
theorem compile_of_alike (hraw₀ : raw₀.Unique) (hraw : raw.Unique) (halike : raw₀.Alike raw)
    (hoptions : options₀.Agree options) (hshipped : compile raw₀ rootType options₀ = .ok shipped) :
    ∃ schema entry₀ entry, compile raw rootType options = .ok schema ∧
      raw₀.field? rootType = some (.obj entry₀) ∧ raw.field? rootType = some (.obj entry) ∧
      schema.root.unordered = shipped.root.unordered ∧
      (schema.root = shipped.root ↔ SameTies options entry₀ entry) := by
  obtain ⟨top₀, entry₀, ordinal₀, root, rfl, hget₀, hordinal₀, hfixed₀, hroot, hlocal, rfl⟩ :=
    compile_eq_ok_iff.1 hshipped
  obtain ⟨top, rfl⟩ := halike.obj_iff.1 ⟨top₀, rfl⟩
  obtain ⟨entry, hget, hagree⟩ := agree_of_alike hraw₀ hraw halike hget₀
  obtain ⟨schema, hschema⟩ := exists_compile_iff.2
    (validSchema_of_agree hget hagree hoptions hordinal₀ hfixed₀ hroot)
  refine ⟨schema, entry₀, entry, hschema, hget₀, hget, ?_⟩
  obtain ⟨top', entry', ordinal, fresh, htop, hget', hordinal, -, hfresh, hlocal', rfl⟩ :=
    compile_eq_ok_iff.1 hschema
  rw [Json.obj.injEq] at htop
  subst htop
  rw [hget, Option.some.injEq, Json.obj.injEq] at hget'
  subst hget'
  have hitems : Item.Agree ⟨rootType, entry₀, ordinal₀⟩ ⟨rootType, entry, ordinal⟩ :=
    ⟨rfl, ((hagree.hasOrdinal_iff ordinal₀).1 hordinal₀).unique hordinal, hagree⟩
  rw [hoptions.describes_iff] at hroot
  have hlocals : root.localName = fresh.localName := by rw [hlocal, hlocal', hoptions.localName]
  refine ⟨(hroot.unordered_eq hfresh hitems).symm, ?_⟩
  rw [eq_comm]
  exact hroot.eq_iff_sameTies hfresh hitems hlocals

/-- If a shipped schema is reused, and the digest tells the texts at hand apart, then the raw schema
compiles to the shipped tree, up to the order of siblings and their local names. It compiles to
the very same tree exactly when the ties of the two documents are broken alike. -/
theorem reused_iff_sameTies (hraw₀ : raw₀.Unique) (hraw : raw.Unique)
    (hshipped : compile raw₀ root₀ options₀ = .ok shipped)
    (hselect : (select raw rootType (some shipped) options).2 = .ok selected)
    (horigin : selected.origin = .reused)
    (hdigest : Digest.ofText raw₀.canonical = Digest.ofText raw.canonical →
      raw₀.canonical = raw.canonical)
    (hoptions : Digest.ofText options₀.summary.canonical = Digest.ofText options.summary.canonical →
      options₀.summary.canonical = options.summary.canonical) :
    selected.schema = shipped ∧
      ∃ schema entry₀ entry, compile raw rootType options = .ok schema ∧
        raw₀.field? rootType = some (.obj entry₀) ∧ raw.field? rootType = some (.obj entry) ∧
        schema.root.unordered = shipped.root.unordered ∧
        (schema.root = shipped.root ↔ SameTies options entry₀ entry) := by
  obtain ⟨rfl, hsame, hroot, hsettings⟩ := select_reused_iff.1 ⟨hselect, horigin⟩
  obtain ⟨top, entry, ordinal, root, -, -, -, -, -, -, hshape⟩ := compile_eq_ok_iff.1 hshipped
  rw [hshape] at hsame hroot hsettings
  have halike : raw₀.Alike raw := Json.alike_of_canonical hraw₀ hraw (hdigest hsame)
  have hagree : options₀.Agree options := Options.agree_of_summary (hoptions hsettings)
  dsimp only at hroot
  subst hroot
  exact ⟨rfl, compile_of_alike hraw₀ hraw halike hagree hshipped⟩

end

namespace Tied

/-- Two properties without ordinals, whose remote names have one local name. -/
def document (first second : String × Json) : Json :=
  .obj [("R", .obj [("__parameters", .obj [first, second])])]

def real : String × Json := ("aB", .obj [("type", .str "Real")])

def integer : String × Json := ("a_b", .obj [("type", .str "Integer")])

/-- What a document compiles to: the second property gets a number. -/
def root (first second : String) (kind other : Primitive) : Descriptor :=
  .container ⟨"R", "r", lastOrdinal⟩
    [.leaf ⟨first, "a_b", lastOrdinal⟩ kind,
      .leaf ⟨second, "a_b_1", lastOrdinal⟩ other] [] []

def shipped : Compiled :=
  ⟨(document real integer).digest, Options.digest {}, "R",
    root "aB" "a_b" .real .integer⟩

def fresh : Compiled :=
  ⟨(document integer real).digest, Options.digest {}, "R",
    root "a_b" "aB" .integer .real⟩

theorem compiled_shipped : compile (document real integer) "R" {} = .ok shipped :=
  compile_eq_ok_of_container rfl (Or.inl ⟨Or.inl rfl, rfl⟩) (by decide +kernel)

theorem compiled_fresh : compile (document integer real) "R" {} = .ok fresh :=
  compile_eq_ok_of_container rfl (Or.inl ⟨Or.inl rfl, rfl⟩) (by decide +kernel)

theorem canonical_eq : (document real integer).canonical = (document integer real).canonical := by
  decide +kernel

theorem digest_eq : shipped.digest = (document integer real).digest := by
  rw [shipped, Json.digest, Json.digest, canonical_eq]

theorem reused :
    (select (document integer real) "R" (some shipped) {}).2 = .ok ⟨shipped, .reused⟩ := by
  have hoptions : shipped.options = Options.digest {} := by rw [shipped]
  exact (select_reused_iff.2 ⟨rfl, digest_eq, by rw [shipped], hoptions⟩).1

theorem unique : (document real integer).Unique ∧ (document integer real).Unique := by
  simp [document, real, integer, Json.Unique, Json.UniqueMembers, Keyed.Distinct]

end Tied

/-- Both documents have the same properties, whichever of them is shipped. -/
theorem reused_iff_sameTies_tied :
    ∃ schema, compile (Tied.document Tied.integer Tied.real) "R" {} = .ok schema ∧
      schema.root.unordered = Tied.shipped.root.unordered := by
  have h := reused_iff_sameTies Tied.unique.1 Tied.unique.2 Tied.compiled_shipped Tied.reused rfl
    (fun _ => Tied.canonical_eq) fun _ => rfl
  obtain ⟨-, schema, _, _, hschema, -, -, hsame, -⟩ := h
  exact ⟨schema, hschema, hsame⟩

/-- The order of a document decides a tie, and with it which property gets the number, but it does
not show in the digest: what is reused is not what the raw schema compiles to. -/
theorem reused_ne_compiled :
    (Tied.document Tied.real Tied.integer).Unique ∧
      (Tied.document Tied.integer Tied.real).Unique ∧
      compile (Tied.document Tied.real Tied.integer) "R" {} = .ok Tied.shipped ∧
      (select (Tied.document Tied.integer Tied.real) "R" (some Tied.shipped) {}).2 =
        .ok ⟨Tied.shipped, .reused⟩ ∧
      (Tied.document Tied.real Tied.integer).canonical =
        (Tied.document Tied.integer Tied.real).canonical ∧
      compile (Tied.document Tied.integer Tied.real) "R" {} = .ok Tied.fresh ∧
      Tied.fresh.root ≠ Tied.shipped.root :=
  ⟨Tied.unique.1, Tied.unique.2, Tied.compiled_shipped, Tied.reused, Tied.canonical_eq,
    Tied.compiled_fresh, by decide⟩

end SettingsTree
