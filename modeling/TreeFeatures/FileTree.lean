import TreeFeatures.Assoc
import TreeFeatures.Path

/-!
# Looking up files

`Lookup` is what a loader can find at a path. `FileTree` is a tree of files given as a list of
entries; `FileTree.lookup` walks it component by component: a component longer than 255 bytes
cannot be looked up in any directory, and nothing lies below a file.
-/

namespace TreeFeatures

/-- What is found at a path. -/
inductive Lookup where
  | missing
  /-- The path itself cannot be followed; the number of the error. -/
  | unreachable (errno : Nat)
  | directory
  | file (bytes : List UInt8)
  /-- There is something, but it cannot be read; the number of the error. -/
  | unreadable (errno : Nat)

/-- An entry of a file tree. -/
inductive FileEntry where
  | directory
  | file (bytes : List UInt8)

/-- The entries of a tree by their components from the root. -/
abbrev FileTree := Assoc (List String) FileEntry

namespace FileTree

/-- The error number of a name that is too long. -/
def nameTooLong : Nat := 36

/-- The error number of reading a directory. -/
def isDirectory : Nat := 21

/-- The longest component, in bytes. -/
def maxName : Nat := 255

/-- The longest path, in bytes. -/
def maxPath : Nat := 4095

/-- Add the directories above a path. -/
def addParents (t : FileTree) (parts : List String) : FileTree :=
  (List.range parts.length).foldl
    (fun t n => if Assoc.has t (parts.take n) then t else Assoc.put t (parts.take n) .directory) t

/-- Add an entry, with the directories above it. -/
def add (t : FileTree) (parts : List String) (e : FileEntry) : FileTree :=
  Assoc.put (addParents t parts) parts e

/-- Follow components from a directory. -/
def walk (t : FileTree) : List String → List String → Lookup
  | here, [] =>
    match Assoc.get? t here with
    | some .directory => .directory
    | some (.file bytes) => .file bytes
    | none => .missing
  | here, part :: rest =>
    match Assoc.get? t here with
    | some .directory =>
      if part = ".." then walk t here.dropLast rest
      else if maxName < part.utf8ByteSize then .unreachable nameTooLong
      else walk t (here ++ [part]) rest
    | _ => .missing

/-- What lies at an absolute path. -/
def lookup (t : FileTree) (p : Path) : Lookup :=
  if p.toString.toList.contains '\x00' then .missing
  else if maxPath < p.toString.utf8ByteSize then .unreachable nameTooLong
  else walk t [] p.parts

end FileTree

end TreeFeatures
