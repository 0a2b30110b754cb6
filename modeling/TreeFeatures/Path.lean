/-!
# Paths

A path is a root, which may be empty, and components. `Path.ofString` drops empty components and
`.`, and keeps `..`; exactly two slashes at the front are a root of their own.

* `name` is the last component, `parent` the path without it.
* `expand?` replaces a leading `~` or `~user`.
-/

namespace TreeFeatures

/-- A path in normal form. -/
structure Path where
  /-- Empty for a relative path. -/
  root : String
  parts : List String
  deriving DecidableEq

namespace Path

/-- The pieces of a text between slashes. -/
def pieces : List Char → List (List Char)
  | [] => [[]]
  | c :: cs =>
    if c = '/' then [] :: pieces cs
    else
      match pieces cs with
      | piece :: rest => (c :: piece) :: rest
      | [] => [[c]]

/-- The components of a text. -/
def components (cs : List Char) : List String :=
  ((pieces cs).filter fun p => p ≠ [] ∧ p ≠ ['.']).map String.ofList

/-- The root of a text: nothing, one slash or two. -/
def rootOf (cs : List Char) : String :=
  match (cs.takeWhile (· = '/')).length with
  | 0 => ""
  | 2 => "//"
  | _ => "/"

/-- The path that a text denotes. -/
def ofString (s : String) : Path := ⟨rootOf s.toList, components s.toList⟩

/-- The text of a path; the empty relative path is a point. -/
def toString (p : Path) : String :=
  if p.root = "" ∧ p.parts = [] then "." else p.root ++ "/".intercalate p.parts

/-- The last component, or nothing. -/
def name (p : Path) : String := p.parts.getLast?.getD ""

/-- The path without its last component. -/
def parent (p : Path) : Path := { p with parts := p.parts.dropLast }

/-- The path below another one; an absolute path stays as it is. -/
def under (base p : Path) : Path :=
  if p.root = "" then { base with parts := base.parts ++ p.parts } else p

/-- The path with the home directory in place of a leading `~`, if the directory is known. -/
def expand? (homeOf : String → Option String) (p : Path) : Option Path :=
  match p.root, p.parts with
  | "", first :: rest =>
    match first.toList with
    | '~' :: user =>
      match homeOf (String.ofList user) with
      | some home => some (under (ofString home) ⟨"", rest⟩)
      | none => none
    | _ => some p
  | _, _ => some p

end Path

end TreeFeatures
