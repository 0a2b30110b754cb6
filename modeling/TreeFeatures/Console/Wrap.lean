import TreeFeatures.Text.Blank
import TreeFeatures.Text.Width

/-!
# Breaking lines

A paragraph is broken into lines that fit a width. A line ends only where the next word would not
fit; the blanks after a word stay with it. A word that fits no line is either broken itself, or
stays whole and is cut off with an ellipsis.
-/

namespace TreeFeatures.Wrap

/-- What happens to a word that fits no line. -/
inductive Overflow where
  /-- It is broken. -/
  | fold
  /-- It is cut off. -/
  | ellipsis
  deriving DecidableEq

/-- The next word of a text, with the blanks before and after it, and what follows. -/
def nextWord (cs : List Char) : List Char × List Char :=
  let before := cs.takeWhile isBlank
  let rest := cs.dropWhile isBlank
  let word := rest.takeWhile fun c => !isBlank c
  let rest := rest.dropWhile fun c => !isBlank c
  (before ++ word ++ rest.takeWhile isBlank, rest.dropWhile isBlank)

/-- The words of a text; the first argument bounds their number. -/
def words : Nat → List Char → List (List Char)
  | 0, _ => []
  | _, [] => []
  | bound + 1, cs => (nextWord cs).1 :: words bound (nextWord cs).2

/-- The characters without the blanks at the end. -/
def withoutTail (cs : List Char) : List Char := (cs.reverse.dropWhile isBlank).reverse

/-- Chunks that fit a width, as long as possible; `chunk` and `used` are the last chunk so far,
reversed, and its width. -/
def chop (width : Nat) : List Char → Nat → List Char → List (List Char)
  | chunk, _, [] => [chunk.reverse]
  | chunk, used, c :: cs =>
    if width < used + charWidth c then chunk.reverse :: chop width [c] (charWidth c) cs
    else chop width (c :: chunk) (used + charWidth c) cs

/-- Lines in the making: the finished ones, the last one, and its width. -/
structure Broken where
  done : List (List Char) := []
  last : List Char := []
  used : Nat := 0

namespace Broken

/-- Begin a new line with a word, unless there is no line to end. -/
def startLine (b : Broken) (word : List Char) : Broken :=
  if b.last.isEmpty then { b with last := word, used := lineWidth word }
  else ⟨b.done ++ [b.last], word, lineWidth word⟩

/-- Add a word. -/
def addWord (width : Nat) (overflow : Overflow) (b : Broken) (word : List Char) : Broken :=
  let needed := lineWidth (withoutTail word)
  if b.used + needed ≤ width then
    { b with last := b.last ++ word, used := b.used + lineWidth word }
  else if needed ≤ width then b.startLine word
  else
    match overflow with
    | .fold => (chop width [] 0 word).foldl startLine b
    | .ellipsis => b.startLine word

end Broken

/-- Spaces up to the next stop, every eight columns, in place of tabs. -/
def expandTabs : Nat → List Char → List Char
  | _, [] => []
  | column, c :: cs =>
    if c = '\t' then
      let spaces := 8 - column % 8
      List.replicate spaces ' ' ++ expandTabs (column + spaces) cs
    else c :: expandTabs (column + charWidth c) cs

/-- The longest part at the front that fits a width, and the width that is left. -/
def fitting : Nat → List Char → List Char × Nat
  | width, [] => ([], width)
  | width, c :: cs =>
    if charWidth c ≤ width then
      let (front, left) := fitting (width - charWidth c) cs
      (c :: front, left)
    else ([], width)

/-- A line cut off so that it fits a width. -/
def cut (width : Nat) (overflow : Overflow) (cs : List Char) : List Char :=
  if lineWidth cs ≤ width then cs
  else
    let room := match overflow with
      | .ellipsis => width - 1
      | .fold => width
    let (front, left) := fitting room cs
    front ++ List.replicate left ' ' ++ (match overflow with | .ellipsis => ['…'] | .fold => [])

/-- A line without those blanks at its end that stand beyond a width. -/
def trimTail (width : Nat) (cs : List Char) : List Char :=
  let blanks := cs.length - (withoutTail cs).length
  cs.take (cs.length - min blanks (cs.length - width))

/-- Break one line. -/
def breakLine (width : Nat) (overflow : Overflow) (cs : List Char) : List (List Char) :=
  let cs := expandTabs 0 cs
  let b := (words cs.length cs).foldl (Broken.addWord width overflow) {}
  (b.done ++ [b.last]).map (trimTail width)

/-- The lines of a text as it is written. -/
def linesOf : List Char → List (List Char)
  | [] => [[]]
  | c :: cs =>
    if c = '\n' then [] :: linesOf cs
    else
      match linesOf cs with
      | line :: rest => (c :: line) :: rest
      | [] => [[c]]

/-- Break a text into lines that fit a width. -/
def wrap (width : Nat) (overflow : Overflow) (cs : List Char) : List (List Char) :=
  (linesOf cs).flatMap (breakLine width overflow)

/-- A paragraph, broken into lines that fit a width. -/
def paragraph (width : Nat) (s : String) : String :=
  String.join ((wrap width .fold s.toList).map fun line =>
    String.ofList (cut width .fold line) ++ "\n")

end TreeFeatures.Wrap
