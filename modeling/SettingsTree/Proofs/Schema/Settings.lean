import SettingsTree.Proofs.Json.Alike
import SettingsTree.Proofs.Name.Local
import SettingsTree.Schema.Compile

/-! # What the compiler takes from its options

Options with the same canonical summary have the same path argument and reserve the same words, and
so they form the same local names. Conversely, these two things are all that the digest covers.

Wherever the compiler looks at its options it asks for the path argument or for the local name of a
remote name. Local names depend on the set of reserved words, and the digest of the options covers
this set and the path argument. So the digest covers what the compiler takes from the options, and
nothing else.
-/

namespace SettingsTree

open Entry

namespace Options

/-- Options that make no difference to the compiler. -/
structure Agree (options other : Options) : Prop where
  pathArgument : options.pathArgument = other.pathArgument
  localName : options.naming.localName = other.naming.localName

theorem summary_unique (options : Options) : options.summary.Unique := by
  refine ⟨by simp [Keyed.Distinct], trivial, ?_, trivial⟩
  rw [Json.Unique, Json.uniqueItems_iff]
  intro item hitem
  obtain ⟨name, -, rfl⟩ := List.mem_map.1 hitem
  trivial

theorem covered_of_summary {options other : Options}
    (h : options.summary.canonical = other.summary.canonical) :
    options.pathArgument = other.pathArgument ∧
      options.naming.extraSorted = other.naming.extraSorted := by
  have halike := Json.alike_of_canonical options.summary_unique other.summary_unique h
  obtain ⟨-, hmembers⟩ := halike
  rw [Json.alikeMembers_iff] at hmembers
  obtain ⟨path, hpath, halike⟩ := hmembers ("path_argument", .str options.pathArgument) (by simp)
  obtain ⟨words, hwords, hreserved⟩ :=
    hmembers ("reserved", .arr (options.naming.extraSorted.map .str)) (by simp)
  simp [Keyed.get?_cons] at hpath hwords
  subst hpath hwords
  have hsorted : other.naming.extraSorted = options.naming.extraSorted := by
    have := (Json.alike_texts_iff hreserved options.naming.extraSorted).1 rfl
    simpa [List.map_inj_right] using this
  exact ⟨halike, hsorted.symm⟩

theorem summary_congr {options other : Options} (hpath : options.pathArgument = other.pathArgument)
    (hreserved : ∀ name, name ∈ options.naming.extra ↔ name ∈ other.naming.extra) :
    options.summary = other.summary := by
  rw [summary, summary, hpath, Name.Naming.extraSorted_congr hreserved]

theorem summary_canonical_iff {options other : Options} :
    options.summary.canonical = other.summary.canonical ↔
      options.pathArgument = other.pathArgument ∧
        ∀ name, name ∈ options.naming.extra ↔ name ∈ other.naming.extra := by
  constructor
  · intro h
    obtain ⟨hpath, hsorted⟩ := covered_of_summary h
    refine ⟨hpath, fun name => ?_⟩
    rw [← Name.Naming.mem_extraSorted, hsorted, Name.Naming.mem_extraSorted]
  · rintro ⟨hpath, hreserved⟩
    rw [summary_congr hpath hreserved]

theorem agree_of_summary {options other : Options}
    (h : options.summary.canonical = other.summary.canonical) : options.Agree other := by
  obtain ⟨hpath, hreserved⟩ := summary_canonical_iff.1 h
  exact ⟨hpath, Name.Naming.localName_congr hreserved⟩

/-- The digest covers which words are reserved, but not how they were given. -/
theorem digest_congr {options other : Options} (hpath : options.pathArgument = other.pathArgument)
    (hreserved : ∀ name, name ∈ options.naming.extra ↔ name ∈ other.naming.extra) :
    options.digest = other.digest := by
  rw [digest, digest, summary_congr hpath hreserved]

end Options

/-! ### What compiling depends on -/

namespace Options

namespace Agree

variable {options other : Options} (h : options.Agree other)

include h

theorem command_eq : Compile.command options = Compile.command other := by
  funext path localName item
  simp only [Compile.command, h.pathArgument, h.localName]

theorem container_eq (path : String) (label : Label) (entry : Entry) :
    Compile.container options path label entry = Compile.container other path label entry := by
  have hchild (c : String × { item : Item // sizeOf item.entry < sizeOf entry }) :
      Compile.container options (pathOf path c.2.1.name) ⟨c.2.1.name, c.1, c.2.1.ordinal⟩
          c.2.1.entry =
        Compile.container other (pathOf path c.2.1.name) ⟨c.2.1.name, c.1, c.2.1.ordinal⟩
          c.2.1.entry := container_eq _ _ c.2.1.entry
  rw [Compile.container, Compile.container, h.localName, h.command_eq]
  simp only [hchild]
termination_by sizeOf entry
decreasing_by exact c.2.2

/-- What is compiled differs at most in the digest of the options, which the result carries. -/
theorem compile_eq (hdigest : options.digest = other.digest) (raw : Json) (rootType : String) :
    compile raw rootType options = compile raw rootType other := by
  simp only [compile, h.localName, h.container_eq, hdigest]

end Agree

/-- The text of which the digest is taken is the same exactly for options with one path argument
that reserve the same words, in whatever order and however often they are given. A raw schema is
then compiled to the same tree, or refused for the same fault. -/
theorem summary_covers (options other : Options) :
    (options.summary.canonical = other.summary.canonical ↔
      options.pathArgument = other.pathArgument ∧
        ∀ name, name ∈ options.naming.extra ↔ name ∈ other.naming.extra) ∧
    (options.summary.canonical = other.summary.canonical →
      ∀ raw rootType, compile raw rootType options = compile raw rootType other) := by
  refine ⟨summary_canonical_iff, fun hsummary raw rootType => ?_⟩
  have hdigest : options.digest = other.digest := by
    rw [digest, digest, Json.digest, Json.digest, hsummary]
  exact (agree_of_summary hsummary).compile_eq hdigest raw rootType

/-! ### Words given in two orders -/

namespace Reordered

/-- A word with a quote and a comma in it, and one word twice. -/
def first : Options := ⟨"ObjectPath", ⟨["mode", "a\",\"b", "mode"]⟩⟩

def second : Options := ⟨"ObjectPath", ⟨["a\",\"b", "mode"]⟩⟩

/-- Two words in place of the one with the comma. -/
def cut : Options := ⟨"ObjectPath", ⟨["a", "b", "mode"]⟩⟩

end Reordered

/-- The order does not show, neither in the text nor in what is compiled; what stands between the
commas does. -/
theorem summary_covers_reordered :
    Reordered.first.summary.canonical = Reordered.second.summary.canonical ∧
      (∀ raw rootType,
        compile raw rootType Reordered.first = compile raw rootType Reordered.second) ∧
      Reordered.second.summary.canonical ≠ Reordered.cut.summary.canonical := by
  obtain ⟨hsummary, hcompile⟩ := summary_covers Reordered.first Reordered.second
  have hsame : Reordered.first.summary.canonical = Reordered.second.summary.canonical := by
    apply hsummary.2
    simp [Reordered.first, Reordered.second]
  refine ⟨hsame, hcompile hsame, fun h => ?_⟩
  have hword := ((summary_covers Reordered.second Reordered.cut).1.1 h).2 "a"
  simp [Reordered.second, Reordered.cut] at hword

end Options

end SettingsTree
