import TreeFeatures.Assoc
import TreeFeatures.Settings.Flags

/-!
# Settings

Model of `TSEnableConfig` and `ConfigResolver`. `Settings` lists the managed languages, the global
flags and, for some languages, flags that replace the global ones as a whole. `Settings.resolve` is
the rule: the override of the language if there is one, even an empty one, and the global flags
otherwise.
-/

namespace TreeFeatures

/-- The settings in force (`TSEnableConfig`). -/
structure Settings where
  /-- The languages that are managed, as listed. -/
  parsers : List String := []
  /-- The flags of languages without an override. -/
  flags : Flags := {}
  /-- The flags that replace the global ones, by language. -/
  overrides : Assoc String Flags := []
  deriving DecidableEq

namespace Settings

/-- Nothing managed and everything off. -/
def empty : Settings := {}

/-- Whether a language has flags of its own (`ConfigResolver.has_override`). -/
def hasOverride (s : Settings) (language : String) : Bool := s.overrides.has language

/-- The effective flags of a language, or of no language in particular
(`ConfigResolver.resolve`). -/
def resolve (s : Settings) : Option String → Flags
  | some language => (s.overrides.get? language).getD s.flags
  | none => s.flags

/-- The languages that the settings mention: the managed ones first, then those with an override,
each at its first mention. -/
def languages (s : Settings) : List String := distinct (s.parsers ++ s.overrides.keys)

end Settings

end TreeFeatures
