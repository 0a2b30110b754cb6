import TreeFeatures.Text.Blank

/-!
# Styles

A tag in a text for the console names a style, as `bold red`. Two names are the same to the console
if they stand for the same style, as `bold red` and `red b`. `Styles` is what a console makes of
names, and `Styles.basic` knows the words for styles: attributes, colours, and links.

A name that is no style is kept in lower case. On one kind of name a console fails: a colour by
numbers one of which is missing, as `rgb(1,,3)`.

What `Styles.basic` leaves out: letters and digits are ASCII ones, numbers have any length, and of
the parameters of a handler, `[@click=parameters]`, those are read that are a name, perhaps with an
empty pair of parentheses behind it, and none that have literals in them.
-/

namespace TreeFeatures

/-- What a console makes of the names of tags. -/
structure Styles where
  /-- The name under which a tag is kept, the same for all names of a style; none if the console
  fails on it. -/
  canonical? : String → Option String
  /-- Whether the parameters of a handler can be read. -/
  readable : String → Bool
  /-- It does not fail on the names that stand in texts of the program itself. -/
  own : ∀ name ∈ ["green", "dim", "bold red"], canonical? name ≠ none

namespace Markup

/-! ## Colours -/

/-- The colours that have a name. -/
def colourNames : List String :=
   ["black", "red", "green", "yellow", "blue", "magenta", "cyan", "white", "bright_black",
    "bright_red", "bright_green", "bright_yellow", "bright_blue", "bright_magenta", "bright_cyan",
    "bright_white", "grey0", "gray0", "navy_blue", "dark_blue", "blue3", "blue1", "dark_green",
    "deep_sky_blue4", "dodger_blue3", "dodger_blue2", "green4", "spring_green4", "turquoise4",
    "deep_sky_blue3", "dodger_blue1", "green3", "spring_green3", "dark_cyan", "light_sea_green",
    "deep_sky_blue2", "deep_sky_blue1", "spring_green2", "cyan3", "dark_turquoise", "turquoise2",
    "green1", "spring_green1", "medium_spring_green", "cyan2", "cyan1", "dark_red", "deep_pink4",
    "purple4", "purple3", "blue_violet", "orange4", "grey37", "gray37", "medium_purple4",
    "slate_blue3", "royal_blue1", "chartreuse4", "dark_sea_green4", "pale_turquoise4",
    "steel_blue", "steel_blue3", "cornflower_blue", "chartreuse3", "cadet_blue", "sky_blue3",
    "steel_blue1", "pale_green3", "sea_green3", "aquamarine3", "medium_turquoise", "chartreuse2",
    "sea_green2", "sea_green1", "aquamarine1", "dark_slate_gray2", "dark_magenta", "dark_violet",
    "purple", "light_pink4", "plum4", "medium_purple3", "slate_blue1", "yellow4", "wheat4",
    "grey53", "gray53", "light_slate_grey", "light_slate_gray", "medium_purple",
    "light_slate_blue", "dark_olive_green3", "dark_sea_green", "light_sky_blue3", "sky_blue2",
    "dark_sea_green3", "dark_slate_gray3", "sky_blue1", "chartreuse1", "light_green",
    "pale_green1", "dark_slate_gray1", "red3", "medium_violet_red", "magenta3", "dark_orange3",
    "indian_red", "hot_pink3", "medium_orchid3", "medium_orchid", "medium_purple2",
    "dark_goldenrod", "light_salmon3", "rosy_brown", "grey63", "gray63", "medium_purple1", "gold3",
    "dark_khaki", "navajo_white3", "grey69", "gray69", "light_steel_blue3", "light_steel_blue",
    "yellow3", "dark_sea_green2", "light_cyan3", "light_sky_blue1", "green_yellow",
    "dark_olive_green2", "dark_sea_green1", "pale_turquoise1", "deep_pink3", "magenta2",
    "hot_pink2", "orchid", "medium_orchid1", "orange3", "light_pink3", "pink3", "plum3", "violet",
    "light_goldenrod3", "tan", "misty_rose3", "thistle3", "plum2", "khaki3", "light_goldenrod2",
    "light_yellow3", "grey84", "gray84", "light_steel_blue1", "yellow2", "dark_olive_green1",
    "honeydew2", "light_cyan1", "red1", "deep_pink2", "deep_pink1", "magenta1", "orange_red1",
    "indian_red1", "hot_pink", "dark_orange", "salmon1", "light_coral", "pale_violet_red1",
    "orchid2", "orchid1", "orange1", "sandy_brown", "light_salmon1", "light_pink1", "pink1",
    "plum1", "gold1", "navajo_white1", "misty_rose1", "thistle1", "yellow1", "light_goldenrod1",
    "khaki1", "wheat1", "cornsilk1", "grey100", "gray100", "grey3", "gray3", "grey7", "gray7",
    "grey11", "gray11", "grey15", "gray15", "grey19", "gray19", "grey23", "gray23", "grey27",
    "gray27", "grey30", "gray30", "grey35", "gray35", "grey39", "gray39", "grey42", "gray42",
    "grey46", "gray46", "grey50", "gray50", "grey54", "gray54", "grey58", "gray58", "grey62",
    "gray62", "grey66", "gray66", "grey70", "gray70", "grey74", "gray74", "grey78", "gray78",
    "grey82", "gray82", "grey85", "gray85", "grey89", "gray89", "grey93", "gray93"]

/-- Why words stand for no style. -/
inductive NoStyle where
  | unknown
  /-- The console fails on them. -/
  | failure
  deriving DecidableEq

/-- The numbers between commas, none where one is missing. The argument in front is the number so
far. -/
def numbers : Option Nat → List Char → List (Option Nat)
  | n, [] => [n]
  | n, c :: cs =>
    if c = ',' then n :: numbers none cs
    else numbers (some (10 * n.getD 0 + (c.toNat - '0'.toNat))) cs

/-- The characters up to a closing parenthesis, if it is the last one. -/
def inside? (cs : List Char) : Option (List Char) :=
  if cs.getLast? = some ')' then some cs.dropLast else none

/-- A check of a word for a colour. -/
def onlyIf (isColour : Bool) (word : String) : Except NoStyle String :=
  if isColour then .ok word else .error .unknown

/-- A word for a colour: its name, six hexadecimal digits, or numbers in parentheses. -/
def colour (word : String) : Except NoStyle String :=
  match word.toList with
  | '#' :: digits =>
    onlyIf (digits.length == 6 && digits.all fun c => c.isDigit || ('a' ≤ c && c ≤ 'f')) word
  | 'c' :: 'o' :: 'l' :: 'o' :: 'r' :: '(' :: cs =>
    let digits := (inside? cs).getD []
    onlyIf (!digits.isEmpty && digits.length ≤ 3 && digits.all Char.isDigit &&
      (numbers none digits).all fun n => n.all (· ≤ 255)) word
  | 'r' :: 'g' :: 'b' :: '(' :: cs =>
    let digits := (inside? cs).getD []
    if digits.all fun c => c.isDigit || c == ',' then
      match numbers none digits with
      | [some r, some g, some b] => onlyIf (r ≤ 255 && g ≤ 255 && b ≤ 255) word
      | [_, _, _] => .error .failure
      | _ => .error .unknown
    else .error .unknown
  | _ => onlyIf (word == "default" || colourNames.contains word) word

/-! ## Styles -/

/-- The words for attributes of a style, with their short forms, in the order in which a style is
written. -/
def attributes : List (List String) :=
  [["bold", "b"], ["dim", "d"], ["italic", "i"], ["underline", "u"], ["blink"], ["blink2"],
    ["reverse", "r"], ["conceal", "c"], ["strike", "s"], ["underline2", "uu"], ["frame"],
    ["encircle"], ["overline", "o"]]

/-- The attribute that a word stands for. -/
def attribute? (word : String) : Option String :=
  (attributes.find? fun names => names.contains word).bind List.head?

/-- A style. -/
structure Style where
  attributes : List (String × Bool) := []
  colour : Option String := none
  background : Option String := none
  link : Option String := none

/-- The words of a text. -/
def wordsOf (s : String) : List String :=
  ((s.toList.splitBy fun a b => isBlank a == isBlank b).filter
    fun w => !(w.all isBlank)).map String.ofList

/-- A text in lower case. -/
def lower (s : String) : String := String.ofList (s.toList.map Char.toLower)

/-- The style that words stand for, added to one that is given. -/
def styleOf (s : Style) : List String → Except NoStyle Style
  | [] => .ok s
  | word :: rest =>
    match lower word, rest with
    | "on", word :: rest => do
      let background ← colour (lower word)
      styleOf { s with background := some background } rest
    | "not", name :: rest =>
      match attribute? name with
      | some a => styleOf { s with attributes := (a, false) :: s.attributes } rest
      | none => .error .unknown
    | "link", target :: rest => styleOf { s with link := some target } rest
    | word, rest =>
      match attribute? word with
      | some a => styleOf { s with attributes := (a, true) :: s.attributes } rest
      | none => do
        let foreground ← colour word
        styleOf { s with colour := some foreground } rest

/-- How a style is written. -/
def Style.text (s : Style) : String :=
  let names := Markup.attributes.filterMap List.head?
  let written (name : String) : List String :=
    match s.attributes.find? fun a => a.1 == name with
    | some (_, true) => [name]
    | some (_, false) => ["not", name]
    | none => []
  let parts := names.flatMap written ++ s.colour.toList ++
    (match s.background with | some c => ["on", c] | none => []) ++
    (match s.link with | some l => ["link", l] | none => [])
  if parts.isEmpty then "none" else " ".intercalate parts

/-- The name of a tag in a form that is the same for all names of a style. -/
def canonical? (name : String) : Option String :=
  match wordsOf name with
  | [] | ["none"] => some "none"
  | words =>
    match styleOf {} words with
    | .ok s => some s.text
    | .error .unknown => some (lower (trimmed name))
    | .error .failure => none

/-- Whether the parameters of a handler are a name, perhaps with an empty pair of parentheses. -/
def isCall (parameters : String) : Bool :=
  let rest := (trimBlanks parameters.toList).dropWhile fun c => c.isAlphanum || c == '_' || c == '.'
  rest.isEmpty || rest == ['(', ')']

end Markup

/-- A console that knows the words for styles. -/
def Styles.basic : Styles where
  canonical? := Markup.canonical?
  readable := Markup.isCall
  own := by decide +kernel

/-- Two names of a style, one of which is a colour. -/
example : Markup.canonical? "bold orange1" = Markup.canonical? "orange1 b" := by decide +kernel

end TreeFeatures
