import SettingsTree.Schema.Compile

/-! # Reuse of compiled schemas

A compiled schema that was shipped with a client is used as it is when it was compiled from the raw
schema that the remote reports, for the same root type and with the same options. Otherwise the
reason is reported and the raw schema is compiled.
-/

namespace SettingsTree

inductive Origin where
  | reused
  | compiled
  deriving DecidableEq, Repr

/-- Why a shipped schema is not used. -/
inductive Mismatch where
  | schemaChanged
  | rootTypeChanged
  | optionsChanged
  deriving DecidableEq, Repr

/-- The report about a shipped schema that is not used: the digest it was compiled from, and the
digest of the schema that the remote reported. -/
structure Fallback where
  rootType : String
  mismatch : Mismatch
  expected : String
  actual : String
  deriving DecidableEq, Repr

namespace Compiled

/-- Why `shipped` does not serve for `raw`, if it does not. -/
def mismatch? (shipped : Compiled) (raw : Json) (rootType : String) (options : Options) :
    Option Mismatch :=
  if shipped.digest ≠ raw.digest then some .schemaChanged
  else if shipped.rootType ≠ rootType then some .rootTypeChanged
  else if shipped.options ≠ options.digest then some .optionsChanged
  else none

def fallback? (shipped : Compiled) (raw : Json) (rootType : String) (options : Options) :
    Option Fallback :=
  (shipped.mismatch? raw rootType options).map fun mismatch =>
    ⟨rootType, mismatch, shipped.digest, raw.digest⟩

end Compiled

structure Selected where
  schema : Compiled
  origin : Origin

def compileSelected (raw : Json) (rootType : String) (options : Options) :
    Except SchemaError Selected :=
  (compile raw rootType options).map (Selected.mk · .compiled)

/-- The schema for `raw`, with the reports about a shipped one. There is at most one report, and it
is made whether or not the raw schema can be compiled. -/
def select (raw : Json) (rootType : String) (shipped : Option Compiled) (options : Options) :
    List Fallback × Except SchemaError Selected :=
  match shipped with
  | none => ([], compileSelected raw rootType options)
  | some schema =>
    match schema.fallback? raw rootType options with
    | none => ([], .ok ⟨schema, .reused⟩)
    | some report => ([report], compileSelected raw rootType options)

end SettingsTree
