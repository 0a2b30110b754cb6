import TreeFeatures.Console.Wrap

/-!
# Tables

A table has a title, columns with headings, and rows of texts, and is drawn with a heavy box around
the headings and a light one around the rows. A column is as wide as its widest text with a blank
on each side. If that is more than the console has, the widest columns give way, and texts that do
not fit their column are broken at blanks or cut off.
-/

namespace TreeFeatures.Table

-- Sums are those of the core library, whatever else is imported next to this module.
attribute [local instance (high)] Zero.ofOfNat0

/-- Where a text stands in its column. -/
inductive Alignment where
  | left
  | center
  deriving DecidableEq

/-- A column. -/
structure Column where
  heading : String
  alignment : Alignment := .left

/-! ## Widths of columns -/

/-- Whether a line is taken to end at a character when texts are measured. -/
def endsLine (c : Char) : Bool :=
  [0xa, 0x1c, 0x1d, 0x1e, 0x85, 0x2028, 0x2029].contains c.toNat

/-- The greatest width among lines; the second argument is the width of the line so far. -/
def widestLine : Nat → List Char → Nat
  | used, [] => used
  | used, c :: cs => if endsLine c then max used (widestLine 0 cs) else widestLine (used + charWidth c) cs

/-- The columns that a text needs. -/
def textWidth (s : String) : Nat := widestLine 0 s.toList

/-- The width of each column, with a blank on each side. -/
def naturalWidths (rows : List (List String)) : List Column → Nat → List Nat
  | [], _ => []
  | c :: cs, i =>
    let texts := rows.map fun row => row[i]?.getD ""
    (((c.heading :: texts).map textWidth).foldl max 0 + 2) :: naturalWidths rows cs (i + 1)

/-- A quotient rounded to the nearest number, halves to the even one. -/
def nearest (n d : Nat) : Nat :=
  let q := n / d
  let r := 2 * (n % d)
  if r < d then q else if d < r then q + 1 else if q % 2 = 0 then q else q + 1

/-- Take an excess away from the widths that are marked, by equal shares of at most `limit`. -/
def takeShares (limit : Nat) : Nat → Nat → List (Nat × Bool) → List Nat
  | _, _, [] => []
  | excess, marked, (w, m) :: rest =>
    if m && 0 < marked then
      let share := min limit (nearest excess marked)
      (w - share) :: takeShares limit (excess - share) (marked - 1) rest
    else w :: takeShares limit excess marked rest

/-- Let the widest columns give way, down to the next width and no further. -/
def shrinkOnce (excess : Nat) (widths : List Nat) : List Nat :=
  let widest := widths.foldl max 0
  let second := (widths.filter (· ≠ widest)).foldl max 0
  let marked := widths.map fun w => (w, w == widest)
  takeShares (min excess (widest - second)) excess (marked.countP Prod.snd) marked

/-- Let columns give way until they fit; the first argument bounds the number of rounds. -/
def shrink (room : Nat) : Nat → List Nat → List Nat
  | 0, widths => widths
  | bound + 1, widths =>
    if widths.sum ≤ room then widths else shrink room bound (shrinkOnce (widths.sum - room) widths)

/-- The widths of columns on a console. -/
def widthsOn (console : Nat) (columns : List Column) (rows : List (List String)) : List Nat :=
  let widths := naturalWidths rows columns 0
  shrink (console - (columns.length + 1)) widths.sum widths

/-! ## Cells -/

/-- A line with blanks up to a width. -/
def align (a : Alignment) (width : Nat) (line : List Char) : List Char :=
  match a with
  | .left => line ++ List.replicate (width - lineWidth line) ' '
  | .center =>
    let line := Wrap.withoutTail line
    let before := (width - lineWidth line) / 2
    List.replicate before ' ' ++ line ++
      List.replicate (width - before - lineWidth line) ' '

/-- The lines of a text in a column that has a width without the blanks at the sides. -/
def cellLines (a : Alignment) (width : Nat) (s : String) : List (List Char) :=
  (Wrap.wrap width .ellipsis s.toList).map fun line =>
    align a width (Wrap.cut width .ellipsis line)

/-- A line of a row between bars. -/
def drawLine (bar : Char) (cells : List (List Char)) : List Char :=
  bar :: cells.flatMap fun c => ' ' :: c ++ [' ', bar]

/-- The lines of a row: as many as its highest cell has. -/
def drawRow (bar : Char) (cells : List (Nat × List (List Char))) : List (List Char) :=
  let height := (cells.map fun c => c.2.length).foldl max 0
  (List.range height).map fun i =>
    drawLine bar (cells.map fun c => c.2[i]?.getD (List.replicate c.1 ' '))

/-- The cells of a row. -/
def cellsOf : List Column → List Nat → List String → List (Nat × List (List Char))
  | c :: cs, w :: ws, row =>
    (w - 2, cellLines c.alignment (w - 2) (row.head?.getD "")) :: cellsOf cs ws row.tail
  | _, _, _ => []

/-! ## Drawing -/

/-- A horizontal line. -/
def rule (left line between right : Char) (widths : List Nat) : List Char :=
  let segments := widths.map fun w => List.replicate w line
  left :: (List.intercalate [between] segments ++ [right])

/-- The lines of the title, in the middle above the table. -/
def titleLines (width : Nat) (title : String) : List (List Char) :=
  (Wrap.wrap width .fold title.toList).map (align .center width)

/-- The lines of a table on a console. -/
def lines (console : Nat) (title : String) (columns : List Column) (rows : List (List String)) :
    List (List Char) :=
  let widths := widthsOn console columns rows
  titleLines (widths.sum + columns.length + 1) title ++
    [rule '┏' '━' '┳' '┓' widths] ++
    drawRow '┃' (cellsOf columns widths (columns.map Column.heading)) ++
    [rule '┡' '━' '╇' '┩' widths] ++
    rows.flatMap (fun row => drawRow '│' (cellsOf columns widths row)) ++
    [rule '└' '─' '┴' '┘' widths]

/-- A table on a console. -/
def draw (console : Nat) (title : String) (columns : List Column) (rows : List (List String)) :
    String :=
  String.join ((lines console title columns rows).map fun l => String.ofList l ++ "\n")

end TreeFeatures.Table
