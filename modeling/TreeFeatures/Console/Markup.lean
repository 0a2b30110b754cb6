import TreeFeatures.Console.Style

/-!
# Markup

Text for the console may hold tags in square brackets, `[bold]x[/bold]`, and names of pictures
between colons. `Markup.render?` gives the text without the tags and with the pictures that the
console knows, unless it cannot be shown: a closing tag has nothing to close, or the console fails on
a name or on parameters. A backslash in front keeps a tag as text, and two of them stand for one;
`Markup.escape` puts backslashes so that no tag is read.

A closing tag names what it closes, or closes the last tag if it names nothing. What the console
makes of names is up to it (`Styles`). A tag can have parameters after an equals sign; they belong to
its style, unless it is a handler, whose name begins with @ and whose parameters are read when it is
closed.
-/

namespace TreeFeatures

/-- The pictures that a console knows, by the names that stand for them between two colons. -/
structure Pictures where
  picture? : List Char → Option (List Char)
  colonless : ∀ name p, picture? name = some p → ':' ∉ p

/-- A console that knows no pictures. -/
def Pictures.none : Pictures := ⟨fun _ => .none, nofun⟩

namespace Markup

/-! ## Tags -/

/-- Whether a tag may begin with a character. -/
def beginsTag (c : Char) : Bool := c.isLower || c == '#' || c == '/' || c == '@'

/-- Whether a character is no bracket. -/
def isPlain (c : Char) : Bool := c != '[' && c != ']'

/-- The tag at the front, without its brackets, and what follows. -/
def tag? : List Char → Option (List Char × List Char)
  | '[' :: c :: rest =>
    if beginsTag c then
      match rest.dropWhile isPlain with
      | ']' :: after => some (c :: rest.takeWhile isPlain, after)
      | _ => none
    else none
  | _ => none

/-- A piece of a text with tags. -/
inductive Piece where
  | text (cs : List Char)
  | tag (cs : List Char)
  deriving DecidableEq

/-- A text piece, unless it is empty. -/
def plain (reversed : List Char) : List Piece :=
  if reversed.isEmpty then [] else [.text reversed.reverse]

/-- The pieces of backslashes in front of a tag, and of the tag. -/
def escapedTag (backslashes : Nat) (tag : List Char) : List Piece :=
  (if backslashes < 2 then [] else [.text (List.replicate (backslashes / 2) '\\')]) ++
    [if backslashes % 2 = 0 then .tag tag else .text ('[' :: tag ++ [']'])]

/-- The pieces of a text. The first argument bounds their number, and `reversed` is the text since
the last tag. -/
def pieces : Nat → List Char → List Char → List Piece
  | 0, reversed, cs => plain (cs.reverse ++ reversed)
  | _, reversed, [] => plain reversed
  | bound + 1, reversed, c :: cs =>
    let backslashes := ((c :: cs).takeWhile (· = '\\')).length
    match tag? ((c :: cs).drop backslashes) with
    | some (tag, after) =>
      plain reversed ++ escapedTag backslashes tag ++ pieces bound [] after
    | none => pieces bound (c :: reversed) cs

/-! ## Pictures -/

/-- A text with pictures in place of their names. The argument in front is what stands between the
last colon and the text, reversed, as long as it can be the beginning of a name: it has no blank. -/
def illustrate (known : Pictures) : Option (List Char) → List Char → List Char
  | none, [] => []
  | none, c :: cs =>
    if c = ':' then illustrate known (some []) cs else c :: illustrate known none cs
  | some name, [] => ':' :: name.reverse
  | some name, c :: cs =>
    if c = ':' then
      (known.picture? name.reverse).getD (':' :: name.reverse ++ [':']) ++ illustrate known none cs
    else if isBlank c then ':' :: name.reverse ++ c :: illustrate known none cs
    else illustrate known (some (c :: name)) cs

/-! ## Rendering -/

/-- A tag that is open. -/
structure OpenTag where
  name : String
  parameters? : Option String
  deriving DecidableEq

namespace OpenTag

/-- Whether a tag has something done when it is clicked. -/
def isHandler (t : OpenTag) : Bool := t.name.toList.head? == some '@'

/-- Whether a console does not fail on the style that a tag asks for. -/
def isStyled (styles : Styles) (t : OpenTag) : Bool :=
  t.isHandler || t.parameters?.all fun p => (styles.canonical? (t.name ++ " " ++ p)).isSome

/-- Whether a tag can be closed: of a handler, the parameters have to be read. -/
def isClosable (styles : Styles) (t : OpenTag) : Bool :=
  !t.isHandler || t.parameters?.all fun p => p == "" || styles.readable p

end OpenTag

/-- A tag up to its parameters. -/
def nameOf (tag : List Char) : List Char := tag.takeWhile (· ≠ '=')

/-- The parameters of a tag. -/
def parametersOf? (tag : List Char) : Option String :=
  match tag.dropWhile (· ≠ '=') with
  | [] => none
  | _ :: cs => some (String.ofList cs)

/-- Take the first tag of a name out of open tags. -/
def takeFirst (name : String) : List OpenTag → Option (OpenTag × List OpenTag)
  | [] => none
  | t :: ts => if t.name = name then some (t, ts) else (takeFirst name ts).map (Prod.map id (t :: ·))

/-- The tag that a closing tag closes, and the other ones; the last tag if there is no name. -/
def closed? (styles : Styles) (name : String) (opened : List OpenTag) :
    Option (OpenTag × List OpenTag) :=
  if name = "" then
    match opened with
    | [] => none
    | t :: ts => some (t, ts)
  else (styles.canonical? name).bind fun name => takeFirst name opened

/-- The open tags after a tag, last one first; none if the text cannot be shown. -/
def afterTag (styles : Styles) (opened : List OpenTag) (tag : List Char) : Option (List OpenTag) :=
  match nameOf tag with
  | '/' :: name => do
    let (t, ts) ← closed? styles (trimmed (String.ofList name)) opened
    if t.isClosable styles then some ts else none
  | name => do
    let t : OpenTag := ⟨← styles.canonical? (String.ofList name), parametersOf? tag⟩
    if t.isStyled styles then some (t :: opened) else none

/-- A text piece with bare brackets in place of escaped ones. -/
def unescape : List Char → List Char
  | '\\' :: '[' :: rest => '[' :: unescape rest
  | c :: rest => c :: unescape rest
  | [] => []

/-- Whether a character is a control that the console leaves out. -/
def isLeftOut (c : Char) : Bool := [7, 8, 11, 12, 13].contains c.toNat

variable (styles : Styles) (known : Pictures)

/-- The text of pieces, with the tags that are open before them. -/
def join? : List OpenTag → List Piece → Option (List Char)
  | _, [] => some []
  | opened, .text cs :: ps => (join? opened ps).map (illustrate known none (unescape cs) ++ ·)
  | opened, .tag tag :: ps =>
    match afterTag styles opened tag with
    | some opened => join? opened ps
    | none => none

/-- The text that is shown, unless it cannot be shown. -/
def render? (s : String) : Option String :=
  if s.toList.contains '[' then
    (join? styles known [] (pieces s.toList.length [] s.toList)).map fun cs =>
      String.ofList (cs.filter fun c => !isLeftOut c)
  else
    some (String.ofList ((illustrate known none s.toList).filter fun c => !isLeftOut c))

/-- A text in which every tag has a backslash more than twice as many as before. The first argument
bounds the number of tags. -/
def escapeTags : Nat → List Char → List Char
  | 0, cs => cs
  | _, [] => []
  | bound + 1, c :: cs =>
    let backslashes := ((c :: cs).takeWhile (· = '\\')).length
    match tag? ((c :: cs).drop backslashes) with
    | some (tag, after) =>
      List.replicate (2 * backslashes + 1) '\\' ++ '[' :: tag ++ ']' :: escapeTags bound after
    | none => c :: escapeTags bound cs

/-- Whether a text ends with exactly one backslash. -/
def endsWithOne (cs : List Char) : Bool :=
  match cs.reverse with
  | '\\' :: '\\' :: _ => false
  | '\\' :: _ => true
  | _ => false

/-- A text of which no tag is read. -/
def escape (s : String) : String :=
  let cs := escapeTags s.toList.length s.toList
  String.ofList (if endsWithOne cs then cs ++ ['\\'] else cs)

end Markup

end TreeFeatures
