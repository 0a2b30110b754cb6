import TreeFeatures.Assoc
import TreeFeatures.Log
import TreeFeatures.Path
import TreeFeatures.Text.Quoted

/-!
# Bundled languages

Model of `BuiltinGrammarIndex`. An editor may come with query files of its own. A language is
bundled if one of them is its highlight query, `…/queries/<language>/highlights.scm`.
-/

namespace TreeFeatures.Bundled

/-- The directory that holds a directory of queries for each language. -/
def queryDirectory : String := "queries"

/-- The name of a highlight query. -/
def highlightsFile : String := "highlights.scm"

/-- The language whose highlight query a path is. -/
def languageOf? (p : Path) : Option String :=
  if p.name = highlightsFile ∧ p.parent.parent.name = queryDirectory then some p.parent.name
  else none

/-- The languages whose highlight queries are among the paths, each at its first appearance
(`BuiltinGrammarIndex.scan`). -/
def scan (paths : List String) : List String :=
  distinct (paths.filterMap fun s => languageOf? (Path.ofString s))

/-- Texts in the order of their code points. -/
def sorted (xs : List String) : List String := xs.mergeSort fun a b => !decide (b < a)

/-- What `BuiltinGrammarIndex.scan` logs. -/
def scanLog (languages : List String) : LogEntry :=
  ⟨.debug, .registry,
    "Builtin highlight queries found for: " ++ quotedList (sorted languages)⟩

end TreeFeatures.Bundled
