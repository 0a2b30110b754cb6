import TreeFeatures.Assoc
import TreeFeatures.Editor.Call

/-!
# Overridden options

Model of `OptionOverride` and `DocumentFeatureState`.

An `Override` is an option that the program wants to have a target value. From the first write on it
keeps the value found before and the handle written on, so that the user's value can be put back;
later writes leave these as they are.

The overrides of one document are kept by option and handle: a document that is shown in several
views has a record, and a saved value, for each of them.
-/

namespace TreeFeatures

/-- An option that the program wants to have a target value (`OptionOverride`). -/
structure Override where
  name : String
  scope : Scope
  target : Value
  /-- The handle written on and the value found there before, if the option was written. -/
  saved : Option (Handle × Value) := none

namespace Override

/-- Whether the option was written and not yet put back. -/
def isApplied (o : Override) : Bool := o.saved.isSome

/-- The value found before the first write. -/
def prior (o : Override) : Value := (o.saved.map Prod.snd).getD .null

/-- The handle written on. -/
def handle (o : Override) : Handle := (o.saved.map Prod.fst).getD .absent

/-- Keep the value found on a handle, unless a value is kept already. -/
def capture (o : Override) (handle : Handle) (current : Value) : Override :=
  match o.saved with
  | some _ => o
  | none => { o with saved := some (handle, current) }

/-- Nothing to put back any more. -/
def release (o : Override) : Override := { o with saved := none }

end Override

/-- Overrides by option and handle (`DocumentFeatureState`). -/
abbrev OverrideTable := Assoc (String × Handle) Override

namespace OverrideTable

/-- The record of an option on a handle with a new target (`DocumentFeatureState.override`); one
that is there keeps its scope and what it saved. -/
def record (t : OverrideTable) (name : String) (scope : Scope) (target : Value)
    (handle : Handle) : Override :=
  match Assoc.get? t (name, handle) with
  | some o => { o with target := target }
  | none => ⟨name, scope, target, none⟩

/-- The values to put back, in the order of the records (`DocumentFeatureState.saved_values`). -/
def savedValues (t : OverrideTable) : List ((String × Handle) × Value) :=
  t.filterMap fun e => e.2.saved.map fun s => (e.1, s.2)

end OverrideTable

/-- The values that options get while features are shown. -/
structure Targets where
  foldMethod : String := "expr"
  foldExpr : String := "v:lua.vim.treesitter.foldexpr()"
  indentExpr : String := "v:lua.require'nvim-treesitter'.indentexpr()"
  deriving DecidableEq

/-- The documents that show features, and the options overridden for each of them (what
`FeatureApplier` holds). -/
structure Features where
  targets : Targets := {}
  documents : Assoc Handle OverrideTable := []

namespace Features

/-- Whether a document shows features (`FeatureApplier.is_active`). -/
def isActive (f : Features) (document : Handle) : Bool := Assoc.has f.documents document

/-- The overrides of a document. -/
def overrides (f : Features) (document : Handle) : OverrideTable :=
  (Assoc.get? f.documents document).getD []

/-- Replace the overrides of a document. -/
def setOverrides (f : Features) (document : Handle) (t : OverrideTable) : Features :=
  { f with documents := Assoc.put f.documents document t }

/-- Count a document among those that show features. -/
def activate (f : Features) (document : Handle) : Features :=
  f.setOverrides document (f.overrides document)

/-- Forget a document. -/
def drop (f : Features) (document : Handle) : Features :=
  { f with documents := Assoc.remove f.documents document }

end Features

end TreeFeatures
