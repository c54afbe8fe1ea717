import SettingsTree.Proofs.Json.Canonical
import SettingsTree.Proofs.Schema.Persisted
import SettingsTree.Proofs.Schema.Reuse
import SettingsTree.Proofs.Schema.Settings

/-! # Shipped schemas serve

What the compiler records about a schema and what selection computes anew are the same digests, and
neither the order of members nor the order of reserved words shows in them. So a compiled schema
that was persisted and shipped is reused for every raw schema like the one it was compiled from.
Where a shipped schema is not reused, selection reports it once and does what it does without it.
-/

namespace SettingsTree

open Entry

section

variable {raw raw' : Json} {rootType : String} {options options' : Options}
  {schema shipped : Compiled} {mismatch : Mismatch}

theorem digests_of_compile (h : compile raw rootType options = .ok schema) :
    schema.digest = raw.digest ∧ schema.rootType = rootType ∧ schema.options = options.digest := by
  obtain ⟨_, _, _, _, -, -, -, -, -, -, rfl⟩ := compile_eq_ok_iff.1 h
  exact ⟨rfl, rfl, rfl⟩

theorem fallback?_of_compile (compiled : compile raw rootType options = .ok schema)
    (hraw : raw.digest = raw'.digest) (hoptions : options.digest = options'.digest) :
    schema.fallback? raw' rootType options' = none := by
  obtain ⟨hdigest, hroot, hsettings⟩ := digests_of_compile compiled
  exact fallback?_eq_none_iff.2 ⟨hdigest.trans hraw, hroot, hsettings.trans hoptions⟩

theorem select_of_serves
    (serves : shipped.fallback? raw rootType options = none) :
    select raw rootType (some shipped) options = ([], .ok ⟨shipped, .reused⟩) := by
  simp only [select, serves]

/-- What does not serve is reported, with the reason, and makes no other difference. -/
theorem select_of_mismatch
    (h : shipped.mismatch? raw rootType options = some mismatch) :
    select raw rootType (some shipped) options =
      ([⟨rootType, mismatch, shipped.digest, raw.digest⟩],
        (compile raw rootType options).map (Selected.mk · .compiled)) := by
  simp only [select, Compiled.fallback?, h, Option.map_some, compileSelected]

end

/-- A schema that was compiled, persisted and read back is reused without a report for every raw
schema that is like the one it was compiled from, and for all options with the same path argument
and the same reserved words. A shipped schema that is not reused is reported once, and what is
selected is what the raw schema compiles to, faults included. -/
theorem shipped_reused_or_reported (rootType : String) :
    (∀ (raw raw' : Json) (options options' : Options) (schema : Compiled), raw'.Unique →
      raw.Alike raw' → options.pathArgument = options'.pathArgument →
      (∀ name, name ∈ options.naming.extra ↔ name ∈ options'.naming.extra) →
      compile raw rootType options = .ok schema → schema.toJson.depth ≤ 127 →
      ∃ shipped, Compiled.ofText schema.toText = .ok shipped ∧
        select raw' rootType (some shipped) options' = ([], .ok ⟨shipped, .reused⟩)) ∧
    ∀ (raw : Json) (options : Options) (shipped : Compiled),
      select raw rootType (some shipped) options ≠ ([], .ok ⟨shipped, .reused⟩) →
      ∃ mismatch, shipped.mismatch? raw rootType options = some mismatch ∧
        select raw rootType (some shipped) options =
          ([⟨rootType, mismatch, shipped.digest, raw.digest⟩],
            (compile raw rootType options).map (Selected.mk · .compiled)) := by
  constructor
  · intro raw raw' options options' schema unique alike hpath hreserved compiled fits
    refine ⟨schema, ?_, select_of_serves (fallback?_of_compile compiled ?_ ?_)⟩
    · rw [Compiled.ofText, schema.read?_toText Compiled.maxDepth fits]
    · exact Json.digest_of_alike unique alike
    · exact Options.digest_congr hpath hreserved
  · intro raw options shipped hreused
    cases hmismatch : shipped.mismatch? raw rootType options with
    | none =>
      refine absurd (select_of_serves ?_) hreused
      rw [Compiled.fallback?, hmismatch, Option.map_none]
    | some mismatch => exact ⟨mismatch, rfl, select_of_mismatch hmismatch⟩

/-! ### A schema for two sessions -/

namespace Sessions

def zone : String × Json := ("Zone", .obj [("type", .str "Real"), ("ordinal", .int 0)])

def depth : String × Json := ("Depth", .obj [("type", .str "Integer"), ("ordinal", .int 0)])

def document (first second : String × Json) : Json :=
  .obj [("R", .obj [("__parameters", .obj [first, second])])]

def options (words : List String) : Options where
  naming := ⟨words⟩

/-- What the first session compiles: the local names of both properties are reserved. -/
def schema : Compiled :=
  ⟨(document zone depth).digest, (options ["zone", "depth"]).digest, "R",
    .container ⟨"R", "r", lastOrdinal⟩
      [.leaf ⟨"Zone", "zone_", 0⟩ .real, .leaf ⟨"Depth", "depth_", 0⟩ .integer] [] []⟩

theorem compiled : compile (document zone depth) "R" (options ["zone", "depth"]) = .ok schema :=
  compile_eq_ok_of_container rfl (Or.inl ⟨Or.inl rfl, rfl⟩) (by decide +kernel)

theorem unique : (document zone depth).Unique ∧ (document depth zone).Unique := by
  simp [document, depth, zone, Json.int, Json.Unique, Json.UniqueMembers, Keyed.Distinct]

theorem alike : (document zone depth).Alike (document depth zone) :=
  Json.alike_of_canonical unique.1 unique.2 (congrArg String.ofList (by decide +kernel))

def misplaced : Compiled := { schema with rootType := "S" }

theorem misplaced_not_reused :
    select (document zone depth) "R" (some misplaced) (options []) ≠
      ([], .ok ⟨misplaced, .reused⟩) := by
  intro h
  obtain ⟨-, -, hroot, -⟩ := select_reused_iff.1 ⟨congrArg Prod.snd h, rfl⟩
  exact absurd hroot (by decide)

end Sessions

/-- The second session reports the properties in another order and reserves a word twice. A schema
for another root type is reported to it. -/
theorem shipped_reused_or_reported_sessions :
    (∃ shipped, Compiled.ofText Sessions.schema.toText = .ok shipped ∧
      select (Sessions.document Sessions.depth Sessions.zone) "R" (some shipped)
        (Sessions.options ["depth", "zone", "depth"]) = ([], .ok ⟨shipped, .reused⟩)) ∧
    ∃ report, select (Sessions.document Sessions.zone Sessions.depth) "R"
        (some Sessions.misplaced) (Sessions.options []) =
      ([report], (compile (Sessions.document Sessions.zone Sessions.depth) "R"
        (Sessions.options [])).map (Selected.mk · .compiled)) := by
  obtain ⟨hreused, hreported⟩ := shipped_reused_or_reported "R"
  obtain ⟨mismatch, -, hselect⟩ := hreported _ _ _ Sessions.misplaced_not_reused
  refine ⟨?_, _, hselect⟩
  exact hreused _ _ (Sessions.options ["zone", "depth"]) _ Sessions.schema Sessions.unique.2
    Sessions.alike rfl (by simp [Sessions.options, or_comm]) Sessions.compiled (by decide)

end SettingsTree
