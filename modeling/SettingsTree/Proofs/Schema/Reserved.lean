import SettingsTree.Proofs.Name.Siblings
import SettingsTree.Proofs.Schema.Position
import SettingsTree.Proofs.Schema.Tree

/-! # Reserved words in a compiled tree

Every position has the local name of its remote name, perhaps with a number behind it. The names
that are numbered are not looked up among the reserved words, so a caller who reserves such a name
can find it in the tree.
-/

namespace SettingsTree

open Entry Name

variable {options : Options} {naming : Naming}

/-- A position has the local name of its remote name, perhaps with a number. -/
def Descriptor.Named (naming : Naming) (d : Descriptor) : Prop :=
  Distinguished d.localName (naming.localName d.remote)

theorem named_of_locals {ds : List Descriptor} {names : List String}
    (hremotes : ds.map Descriptor.remote = names)
    (hlocals : ds.map Descriptor.localName = distinguishAll (names.map naming.localName)) :
    ∀ d ∈ ds, d.Named naming := by
  have hall := distinguished_distinguishAll (names.map naming.localName)
  rw [← hlocals, ← hremotes, List.map_map, List.forall₂_map_left_iff, List.forall₂_map_right_iff,
    List.forall₂_same] at hall
  exact hall

theorem DescribesMembers.named {properties children commands : List Descriptor} {entry : Entry}
    (h : DescribesMembers options properties children commands (DescribesAll options children)
      entry) : ∀ d ∈ properties ++ children ++ commands, d.Named options.naming := by
  obtain ⟨parameters, inner, actions, -, -, -, hproperties, hchildren, hcommands, hlocals⟩ := h
  have hremotes : (properties ++ children ++ commands).map Descriptor.remote =
      (parameters ++ inner ++ actions).map Item.name := by
    simp only [List.map_append, remotes_eq (fun _ _ => DescribesLeaf.label_eq) hproperties,
      remotes_eq (fun _ _ => Describes.label_eq) (describesAll_iff.1 hchildren),
      remotes_eq (fun _ _ => DescribesCommand.label_eq) hcommands]
  exact named_of_locals hremotes (by rw [hlocals, List.map_map]; rfl)

theorem DescribesCommand.named {label : Label} {arguments : List Descriptor}
    {essential : List String} {pathArgument : Option String} {query : Bool} {item : Item}
    (h : DescribesCommand options (.command label arguments essential pathArgument query) item) :
    ∀ a ∈ arguments, a.Named options.naming := by
  obtain ⟨_, _, listed, _, _, -, -, -, -, harguments, hlocals, heq⟩ := h
  cases heq
  exact named_of_locals (remotes_eq (fun _ _ => DescribesLeaf.label_eq) harguments)
    (by rw [hlocals, List.map_map]; rfl)

/-- Positions receive their names from the position above; a template has those of its collection.
-/
theorem Describes.named_of_reaches {root d : Descriptor} {item : Item}
    (h : Describes options root item) (hroot : root.Named options.naming) (hd : root.Reaches d) :
    d.Named options.naming := by
  induction hd with
  | root => exact hroot
  | property mem hd =>
    obtain ⟨_, hmembers⟩ := (described_of_reaches h hd).members
    exact hmembers.named _ (by simp [mem])
  | child mem hd =>
    obtain ⟨_, hmembers⟩ := (described_of_reaches h hd).members
    exact hmembers.named _ (by simp [mem])
  | command mem hd =>
    obtain ⟨_, hmembers⟩ := (described_of_reaches h hd).members
    exact hmembers.named _ (by simp [mem])
  | template hd ih =>
    obtain ⟨_, hcollection⟩ := (described_of_reaches h hd).collection
    obtain ⟨_, _, _, rfl, -⟩ := hcollection.template
    exact ih
  | argument mem hd =>
    obtain ⟨_, hcommand⟩ := (described_of_reaches h hd).arguments
    exact hcommand.named _ mem

/-- In a compiled tree, a position with a remote name that is not empty has the local name of the
remote name, perhaps with a number. Its local name is reserved exactly if it has a number and the
caller reserved it with the number. -/
theorem isReserved_localName_iff {raw : Json} {rootType : String} {schema : Compiled}
    (compiled : compile raw rootType options = .ok schema) {d : Descriptor}
    (hd : schema.root.Reaches d) (named : d.remote ≠ "") :
    Distinguished d.localName (options.naming.localName d.remote) ∧
      (options.naming.isReserved d.localName ↔
        d.localName ≠ options.naming.localName d.remote ∧
          d.localName ∈ options.naming.extra) := by
  obtain ⟨top, entry, ordinal, root, -, -, -, -, hroot, hlocal, rfl⟩ := compile_eq_ok_iff.1 compiled
  have hnamed : d.Named options.naming := by
    refine hroot.named_of_reaches (Or.inl ?_) hd
    rw [hlocal, hroot.remote]
  have hfree := options.naming.not_isReserved_localName named
  refine ⟨hnamed, ?_⟩
  rcases hnamed with heq | ⟨number, -, heq⟩
  -- a name that was kept was moved out of the way before
  · rw [heq]
    exact ⟨fun hreserved => absurd hreserved hfree, fun h => absurd rfl h.1⟩
  · constructor
    · intro hreserved
      refine ⟨fun hkept => hfree (hkept ▸ hreserved), ?_⟩
      rcases options.naming.isReserved_iff.1 hreserved with hcommon | hextra
      · exact absurd (heq ▸ hcommon) (numbered_not_mem_reservedWords _ number)
      · exact hextra
    · exact fun h => options.naming.isReserved_iff.2 (Or.inr h.2)

/-! ### A reserved name that is given all the same

Two properties have one local name, and the caller reserved the name that the second one gets.
-/

namespace Taken

def entry : Entry := [("__parameters", .obj [
  ("FilePath", .obj [("type", .str "String"), ("ordinal", .int 0)]),
  ("File_Path", .obj [("type", .str "String"), ("ordinal", .int 1)])])]

def raw : Json := .obj [("Root", .obj entry)]

def settings : Options := { naming := { extra := ["file_path_1"] } }

def first : Descriptor := .leaf ⟨"FilePath", "file_path", 0⟩ .string

def second : Descriptor := .leaf ⟨"File_Path", "file_path_1", 1⟩ .string

def root : Descriptor := .container ⟨"Root", "root", lastOrdinal⟩ [first, second] [] []

def schema : Compiled := ⟨raw.digest, settings.digest, "Root", root⟩

theorem compiled : compile raw "Root" settings = .ok schema :=
  compile_eq_ok_of_container rfl (Or.inl ⟨Or.inl rfl, rfl⟩) (by decide +kernel)

theorem first_not_reserved :
    compile raw "Root" settings = .ok schema ∧ schema.root.Reaches first ∧ first.remote ≠ "" ∧
      ¬ settings.naming.isReserved first.localName := by
  have hd : schema.root.Reaches first := .property (by simp) .root
  obtain ⟨-, h⟩ := isReserved_localName_iff compiled hd (by decide)
  refine ⟨compiled, hd, by decide, fun hreserved => ?_⟩
  exact absurd (h.1 hreserved).2 (by decide)

/-- The name that the second property gets is reserved. -/
theorem second_reserved :
    compile raw "Root" settings = .ok schema ∧ schema.root.Reaches second ∧ second.remote ≠ "" ∧
      settings.naming.isReserved second.localName :=
  ⟨compiled, .property (by simp) .root, by decide, by decide +kernel⟩

end Taken

end SettingsTree
