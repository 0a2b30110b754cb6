/-!
# Feature flags

Four switches govern one language: whether its grammar may be installed on demand, and whether its
documents get highlighting, folding and indentation. `Flag` names a switch, `Flags` holds the four
values, and `Flags.get` reads a switch by its name.
-/

namespace TreeFeatures

/-- A switch, in the order in which the switches are checked and listed. -/
inductive Flag where
  | autoInstall
  | highlights
  | folds
  | indents
  deriving DecidableEq

namespace Flag

/-- The switches in order. -/
def all : List Flag := [autoInstall, highlights, folds, indents]

/-- The name under which settings give a switch. -/
def name : Flag → String
  | autoInstall => "auto_install"
  | highlights => "highlights"
  | folds => "folds"
  | indents => "indents"

end Flag

/-- The effective switches of a language (`FeatureConfig`). -/
structure Flags where
  autoInstall : Bool := false
  highlights : Bool := false
  folds : Bool := false
  indents : Bool := false
  deriving DecidableEq

namespace Flags

/-- Everything switched off. -/
def off : Flags := {}

/-- The value of a switch. -/
def get (f : Flags) : Flag → Bool
  | .autoInstall => f.autoInstall
  | .highlights => f.highlights
  | .folds => f.folds
  | .indents => f.indents

/-- The switches with given values. -/
def ofFun (value : Flag → Bool) : Flags :=
  ⟨value .autoInstall, value .highlights, value .folds, value .indents⟩

/-- Whether some feature is shown in documents (`FeatureConfig.any_enabled`). -/
def anyEnabled (f : Flags) : Bool := f.highlights || f.folds || f.indents

@[simp] theorem get_ofFun (value : Flag → Bool) (flag : Flag) :
    (ofFun value).get flag = value flag := by
  cases flag <;> rfl

@[simp] theorem get_off (flag : Flag) : off.get flag = false := by
  cases flag <;> rfl

end Flags

end TreeFeatures
