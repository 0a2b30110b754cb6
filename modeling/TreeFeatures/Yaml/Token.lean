import TreeFeatures.Assoc
import TreeFeatures.Json.Reader

/-!
# YAML tokens

`tokens` cuts a YAML 1.1 text into tokens. Indentation becomes explicit: a block collection opens
when a column grows and closes when it shrinks (`unwindTo`). A key that is written without `?` is
recognised only at its `:`, so each place where such a key may have begun is remembered
(`PendingKey`) and the `key` token is inserted there afterwards. A remembered place lapses at the
end of its line and after 1024 characters.

The scanner works on the characters still to be read; each step consumes at least one of them.
-/

namespace TreeFeatures.Yaml

/-- Why a text denotes no document. -/
inductive Fault where
  /-- The text is not YAML of the accepted kind. -/
  | malformed
  /-- A scalar does not denote a value of its type; the reason in words. -/
  | badScalar (reason : String)
  /-- A scalar tagged as a truth value is none of the known words. -/
  | unknownWord
  /-- A scalar tagged as a time has not the form of one. -/
  | notATime
  /-- A scalar tagged as a number is empty. -/
  | emptyNumber
  /-- An escape names a code point beyond all integers of the platform. -/
  | overflow
  deriving DecidableEq

/-- A lexical unit of a YAML text. -/
inductive Token where
  | directive (name : String) (arguments : List String)
  | documentStart
  | documentEnd
  | blockSequence
  | blockMapping
  | blockEnd
  | flowSequence
  | flowSequenceEnd
  | flowMapping
  | flowMappingEnd
  | key
  | value
  | blockEntry
  | flowEntry
  | alias (name : String)
  | anchor (name : String)
  | tag (handle : Option String) (suffix : String)
  | scalar (plain : Bool) (text : String)
  deriving DecidableEq

/-- A place where a key without `?` may have begun. -/
structure PendingKey where
  /-- The number of tokens before it. -/
  place : Nat
  /-- Whether the text is malformed unless it turns out to be a key. -/
  required : Bool
  index : Nat
  line : Nat
  column : Nat

/-- The state of the scanner. -/
structure Scan where
  rest : List Char
  index : Nat := 0
  line : Nat := 0
  column : Nat := 0
  /-- How many flow collections are open. -/
  flow : Nat := 0
  /-- The column of the innermost open block collection. -/
  indent : Int := -1
  /-- The columns of the enclosing ones, innermost first. -/
  indents : List Int := []
  /-- Whether a key without `?` may begin here. -/
  keyAllowed : Bool := true
  /-- The pending key of each depth of flow collections. -/
  keys : Assoc Nat PendingKey := []
  /-- The tokens so far, newest first. -/
  tokens : List Token := []
  /-- Their number. -/
  count : Nat := 0

/-- Whether a character ends a line. -/
def isBreak (c : Char) : Bool :=
  c = '\n' || c = '\r' || c = '\u0085' || c = '\u2028' || c = '\u2029'

/-- At the end of the text or of a line. -/
def endsLine : Option Char → Bool
  | none => true
  | some c => isBreak c

/-- At the end of the text or of a line, or at a space. -/
def endsWord : Option Char → Bool
  | none => true
  | some c => isBreak c || c = ' '

/-- At the end of the text or of a line, or at a space or tab. -/
def endsToken : Option Char → Bool
  | none => true
  | some c => isBreak c || c = ' ' || c = '\t'

/-- A character of a name. -/
def isNameChar (c : Char) : Bool := c.isAlphanum || c = '-' || c = '_'

namespace Scan

/-- The character `k` places ahead. -/
def peek (s : Scan) (k : Nat) : Option Char := s.rest[k]?

/-- Pass one character. -/
def forward (s : Scan) : Scan :=
  match s.rest with
  | [] => s
  | c :: cs =>
    let s := { s with rest := cs, index := s.index + 1 }
    if isBreak c && !(c = '\r' && cs.head? = some '\n') then
      { s with line := s.line + 1, column := 0 }
    else if c = '\ufeff' then s
    else { s with column := s.column + 1 }

/-- Pass several characters. -/
def advance (s : Scan) : Nat → Scan
  | 0 => s
  | n + 1 => s.forward.advance n

/-- The characters ahead that satisfy a condition, and the state after them. -/
def span (s : Scan) (p : Char → Bool) : List Char × Scan :=
  let cs := s.rest.takeWhile p
  (cs, s.advance cs.length)

/-- Pass the characters that satisfy a condition. -/
def skip (s : Scan) (p : Char → Bool) : Scan := (s.span p).2

/-- Pass one line break, if one is ahead; the text that it stands for. -/
def lineBreak (s : Scan) : List Char × Scan :=
  match s.rest with
  | '\r' :: '\n' :: _ => (['\n'], s.advance 2)
  | c :: _ =>
    if c = '\n' || c = '\r' || c = '\u0085' then (['\n'], s.forward)
    else if isBreak c then ([c], s.forward)
    else ([], s)
  | [] => ([], s)

/-- Append a token. -/
def emit (s : Scan) (t : Token) : Scan := { s with tokens := t :: s.tokens, count := s.count + 1 }

/-- Insert a token that belongs before all but the first `place` tokens. -/
def insertAt (s : Scan) (place : Nat) (t : Token) : Scan :=
  let later := s.count - place
  { s with tokens := s.tokens.take later ++ t :: s.tokens.drop later, count := s.count + 1 }

/-! ## Indentation and pending keys -/

/-- Close the block collections that lie right of a column. -/
def unwindTo (s : Scan) (column : Int) : Scan :=
  if s.flow ≠ 0 then s else go s.indents s
where
  go : List Int → Scan → Scan
    | [], s => s
    | outer :: indents, s =>
      if column < s.indent then
        go indents ({ s with indent := outer, indents := indents }.emit .blockEnd)
      else s

/-- Open a block collection at a column, if the column lies right of the open ones. -/
def indentTo (s : Scan) (column : Nat) : Bool × Scan :=
  if s.indent < column then (true, { s with indent := column, indents := s.indent :: s.indents })
  else (false, s)

/-- Whether a pending key has lapsed. -/
def lapsed (s : Scan) (k : PendingKey) : Bool := k.line ≠ s.line || 1024 < s.index - k.index

/-- Forget the pending keys that have lapsed; a required one must not. -/
def dropLapsed (s : Scan) : Except Fault Scan :=
  if s.keys.any fun e => s.lapsed e.2 && e.2.required then throw .malformed
  else pure { s with keys := s.keys.filter fun e => !s.lapsed e.2 }

/-- Forget the pending key of the present depth; it must not be a required one. -/
def dropKey (s : Scan) : Except Fault Scan :=
  match s.keys.get? s.flow with
  | some k => if k.required then throw .malformed else pure { s with keys := s.keys.remove s.flow }
  | none => pure s

/-- Remember that a key may begin here. -/
def saveKey (s : Scan) : Except Fault Scan :=
  if s.keyAllowed then do
    let required := s.flow = 0 && s.indent = s.column
    let s ← s.dropKey
    pure { s with keys := s.keys.put s.flow ⟨s.count, required, s.index, s.line, s.column⟩ }
  else pure s

/-- Before the next token: pass spaces, comments and line breaks. -/
def toNextToken : Nat → Scan → Scan
  | 0, s => s
  | fuel + 1, s =>
    let s := s.skip (· = ' ')
    let s := if s.peek 0 = some '#' then s.skip (fun c => !isBreak c) else s
    match s.lineBreak with
    | ([], s) => s
    | (_, s) => toNextToken fuel (if s.flow = 0 then { s with keyAllowed := true } else s)

/-- Whether a document marker made of one character stands at the start of this line. -/
def atMarker (s : Scan) (c : Char) : Bool :=
  s.rest.take 3 = [c, c, c] && endsToken (s.peek 3)

/-- Whether any document marker is ahead. -/
def atAnyMarker (s : Scan) : Bool := s.atMarker '-' || s.atMarker '.'

/-! ## Directives, anchors and tags -/

/-- The end of a line that may carry a comment. -/
def ignoredLine (s : Scan) : Except Fault Scan :=
  let s := s.skip (· = ' ')
  let s := if s.peek 0 = some '#' then s.skip (fun c => !isBreak c) else s
  if endsLine (s.peek 0) then pure s.lineBreak.2 else throw .malformed

/-- A decimal number. -/
def decimalNumber (s : Scan) : Except Fault (String × Scan) :=
  match s.span Char.isDigit with
  | ([], _) => throw .malformed
  | (ds, s) => pure (toString (Json.digitsValue ds), s)

/-- A tag handle: `!`, or a name between two of them. -/
def tagHandle (s : Scan) : Except Fault (String × Scan) :=
  match s.rest with
  | '!' :: ' ' :: _ => pure ("!", s.forward)
  | '!' :: cs =>
    let name := cs.takeWhile isNameChar
    if (cs.drop name.length).head? = some '!' then
      pure (String.ofList ('!' :: name ++ ['!']), s.advance (name.length + 2))
    else throw .malformed
  | _ => throw .malformed

/-- The bytes of `%xx` escapes ahead. -/
def uriEscapes : Nat → Scan → Except Fault (List UInt8 × Scan)
  | 0, s => pure ([], s)
  | fuel + 1, s =>
    match s.rest with
    | '%' :: a :: b :: _ =>
      match Json.hexDigit? a, Json.hexDigit? b with
      | some x, some y => do
        let (bs, s) ← uriEscapes fuel (s.advance 3)
        pure (UInt8.ofNat (16 * x + y) :: bs, s)
      | _, _ => throw .malformed
    | '%' :: _ => throw .malformed
    | _ => pure ([], s)

/-- A character of a URI. -/
def isUriChar (c : Char) : Bool :=
  isNameChar c || "-;/?:@&=+$,_.!~*'()[]".toList.contains c

/-- The parts of a URI ahead. -/
def uriParts : Nat → Scan → Except Fault (List Char × Scan)
  | 0, s => pure ([], s)
  | fuel + 1, s =>
    match s.span isUriChar with
    | ([], s) =>
      if s.peek 0 = some '%' then do
        let (bs, s) ← uriEscapes (s.rest.length + 1) s
        match String.fromUTF8? ⟨bs.toArray⟩ with
        | some text =>
          let (cs, s) ← uriParts fuel s
          pure (text.toList ++ cs, s)
        | none => throw .malformed
      else pure ([], s)
    | (cs, s) => do
      let (more, s) ← uriParts fuel s
      pure (cs ++ more, s)

/-- A URI; it is not empty. -/
def uri (s : Scan) : Except Fault (String × Scan) := do
  let (cs, s) ← uriParts (s.rest.length + 1) s
  if cs.isEmpty then throw .malformed else pure (String.ofList cs, s)

/-- A directive; the `%` is ahead. -/
def directive (s : Scan) : Except Fault (Token × Scan) := do
  let (name, s) := s.forward.span isNameChar
  if name.isEmpty || !endsWord (s.peek 0) then throw .malformed
  let name := String.ofList name
  let (arguments, s) ←
    if name = "YAML" then do
      let (major, s) ← (s.skip (· = ' ')).decimalNumber
      if s.peek 0 ≠ some '.' then throw .malformed
      let (minor, s) ← s.forward.decimalNumber
      if !endsWord (s.peek 0) then throw .malformed
      pure ([major, minor], s)
    else if name = "TAG" then do
      let (handle, s) ← (s.skip (· = ' ')).tagHandle
      if s.peek 0 ≠ some ' ' then throw .malformed
      let (suffix, s) ← (s.skip (· = ' ')).uri
      if !endsWord (s.peek 0) then throw .malformed
      pure ([handle, suffix], s)
    else pure ([], s.skip (fun c => !isBreak c))
  let s ← s.ignoredLine
  pure (.directive name arguments, s)

/-- The name of an anchor or alias; its indicator is ahead. -/
def anchorName (s : Scan) : Except Fault (String × Scan) :=
  let (name, s) := s.forward.span isNameChar
  let closed := match s.peek 0 with
    | some c => "?:,]\x7d%@`".toList.contains c || endsToken (some c)
    | none => true
  if name.isEmpty || !closed then throw .malformed else pure (String.ofList name, s)

/-- A tag; the `!` is ahead. -/
def tag (s : Scan) : Except Fault (Token × Scan) := do
  let (token, s) ←
    if s.peek 1 = some '<' then do
      let (suffix, s) ← (s.advance 2).uri
      if s.peek 0 ≠ some '>' then throw .malformed
      pure (Token.tag none suffix, s.forward)
    else if endsToken (s.peek 1) then pure (Token.tag none "!", s.forward)
    else do
      let word := (s.rest.drop 1).takeWhile fun c => !endsWord (some c)
      let (handle, s) ← if word.contains '!' then s.tagHandle else pure ("!", s.forward)
      let (suffix, s) ← s.uri
      pure (Token.tag (some handle) suffix, s)
  if endsWord (s.peek 0) then pure (token, s) else throw .malformed

/-! ## Scalars -/

/-- The line breaks, and the spaces up to a column, before a line of a block scalar. -/
def blockBreaks (indent : Nat) : Nat → Scan → List Char × Scan
  | 0, s => ([], s)
  | fuel + 1, s =>
    let spaces := (s.rest.takeWhile (· = ' ')).length
    let s := s.advance (min spaces (indent - s.column))
    match s.lineBreak with
    | ([], s) => ([], s)
    | (b, s) =>
      let (more, s) := blockBreaks indent fuel s
      (b ++ more, s)

/-- The line breaks before the first line of a block scalar, and the widest column seen. -/
def blockIndentation : Nat → Nat → Scan → List Char × Nat × Scan
  | 0, widest, s => ([], widest, s)
  | fuel + 1, widest, s =>
    match s.rest with
    | ' ' :: _ =>
      let s := s.forward
      blockIndentation fuel (max widest s.column) s
    | _ =>
      match s.lineBreak with
      | ([], s) => ([], widest, s)
      | (b, s) =>
        let (more, widest, s) := blockIndentation fuel widest s
        (b ++ more, widest, s)

/-- The lines of a block scalar: text so far in reverse, the last line break, the breaks after. -/
def blockLines (folded : Bool) (indent : Nat) :
    Nat → List Char → List Char → Scan → List Char × List Char × List Char × Scan
  | 0, acc, breaks, s => (acc, [], breaks, s)
  | fuel + 1, acc, breaks, s =>
    let solid (s : Scan) : Bool := s.peek 0 ≠ some ' ' && s.peek 0 ≠ some '\t'
    let leading := solid s
    let (line, s) := s.span fun c => !isBreak c
    let acc := line.reverse ++ breaks.reverse ++ acc
    let (b, s) := s.lineBreak
    let (breaks, s) := blockBreaks indent (s.rest.length + 1) s
    if s.column = indent && !s.rest.isEmpty then
      let acc :=
        if folded && b = ['\n'] && leading && solid s then
          if breaks.isEmpty then ' ' :: acc else acc
        else b.reverse ++ acc
      blockLines folded indent fuel acc breaks s
    else (acc, b, breaks, s)

/-- The indicators of a block scalar: what becomes of its last breaks, and its indentation. -/
def blockHeader (s : Scan) : Except Fault (Option Bool × Option Nat × Scan) :=
  let sign? (s : Scan) : Option Bool × Scan := match s.peek 0 with
    | some '+' => (some true, s.forward)
    | some '-' => (some false, s.forward)
    | _ => (none, s)
  let digit? (s : Scan) : Except Fault (Option Nat × Scan) := match s.peek 0 with
    | some c =>
      if c = '0' then throw .malformed
      else if c.isDigit then pure (some (c.toNat - '0'.toNat), s.forward)
      else pure (none, s)
    | none => pure (none, s)
  do
    let (chomp, s) := sign? s
    let (indent, s) ← digit? s
    let (chomp, s) := if chomp.isNone && indent.isSome then sign? s else (chomp, s)
    if endsWord (s.peek 0) then pure (chomp, indent, s) else throw .malformed

/-- A literal or folded block scalar; its indicator is ahead. -/
def blockScalar (s : Scan) (folded : Bool) : Except Fault (Token × Scan) := do
  let (chomp, increment, s) ← s.forward.blockHeader
  let s ← s.ignoredLine
  let least := (max 1 (s.indent + 1)).toNat
  let (breaks, indent, s) := match increment with
    | some n =>
      let (b, s) := blockBreaks (least + n - 1) (s.rest.length + 1) s
      (b, least + n - 1, s)
    | none =>
      let (b, widest, s) := blockIndentation (s.rest.length + 1) 0 s
      (b, max least widest, s)
  let (acc, last, breaks, s) :=
    if s.column = indent && !s.rest.isEmpty then
      blockLines folded indent (s.rest.length + 1) [] breaks s
    else ([], [], breaks, s)
  let acc := if chomp = some false then acc else last.reverse ++ acc
  let acc := if chomp = some true then breaks.reverse ++ acc else acc
  pure (.scalar false (String.ofList acc.reverse), s)

/-- The empty lines after a line break inside a quoted scalar. -/
def quotedBreaks : Nat → Scan → Except Fault (List Char × Scan)
  | 0, s => pure ([], s)
  | fuel + 1, s =>
    if s.atAnyMarker then throw .malformed
    else
      let s := s.skip fun c => c = ' ' || c = '\t'
      match s.lineBreak with
      | ([], s) => pure ([], s)
      | (b, s) => do
        let (more, s) ← quotedBreaks fuel s
        pure (b ++ more, s)

/-- Blanks and line breaks inside a quoted scalar. -/
def quotedSpaces (s : Scan) : Except Fault (List Char × Scan) := do
  let (blanks, s) := s.span fun c => c = ' ' || c = '\t'
  if s.rest.isEmpty then throw .malformed
  match s.lineBreak with
  | ([], s) => pure (blanks, s)
  | (b, s) =>
    let (breaks, s) ← quotedBreaks (s.rest.length + 1) s
    let head := if b ≠ ['\n'] then b else if breaks.isEmpty then [' '] else []
    pure (head ++ breaks, s)

/-- The character that a one-letter escape stands for. -/
def shortEscape? : Char → Option Char
  | '0' => some '\x00'
  | 'a' => some '\x07'
  | 'b' => some '\x08'
  | 't' | '\t' => some '\t'
  | 'n' => some '\n'
  | 'v' => some '\x0b'
  | 'f' => some '\x0c'
  | 'r' => some '\r'
  | 'e' => some '\x1b'
  | ' ' => some ' '
  | '"' => some '"'
  | '\\' => some '\\'
  | '/' => some '/'
  | 'N' => some '\u0085'
  | '_' => some '\u00a0'
  | 'L' => some '\u2028'
  | 'P' => some '\u2029'
  | _ => none

/-- The number of digits after a numeric escape. -/
def escapeWidth? : Char → Option Nat
  | 'x' => some 2
  | 'u' => some 4
  | 'U' => some 8
  | _ => none

/-- The character of a code point; half of a surrogate pair reads as the replacement character. -/
def codePoint (n : Nat) : Except Fault Char :=
  if 0x7fffffff < n then throw .overflow
  else if 0x10ffff < n then throw (.badScalar "chr() arg not in range(0x110000)")
  else if 0xd800 ≤ n ∧ n < 0xe000 then pure '\ufffd'
  else pure (Char.ofNat n)

/-- An escape of a double-quoted scalar; the backslash is passed. -/
def escape (s : Scan) : Except Fault (List Char × Scan) :=
  match s.peek 0 with
  | none => throw .malformed
  | some c =>
    match shortEscape? c with
    | some r => pure ([r], s.forward)
    | none =>
      match escapeWidth? c with
      | some width => do
        let digits := (s.forward.rest.take width).filterMap Json.hexDigit?
        if digits.length ≠ width then throw .malformed
        let r ← codePoint (digits.foldl (fun n d => 16 * n + d) 0)
        pure ([r], s.forward.advance width)
      | none =>
        if isBreak c then
          let s := s.lineBreak.2
          quotedBreaks (s.rest.length + 1) s
        else throw .malformed

/-- The characters of a quoted scalar up to its closing quote, in reverse. -/
def quotedBody (double : Bool) : Nat → List Char → Scan → Except Fault (List Char × Scan)
  | 0, _, _ => throw .malformed
  | fuel + 1, acc, s =>
    match s.rest with
    | [] => throw .malformed
    | c :: cs =>
      if c = ' ' || c = '\t' || isBreak c then do
        let (text, s) ← s.quotedSpaces
        quotedBody double fuel (text.reverse ++ acc) s
      else if double then
        if c = '"' then pure (acc, s.forward)
        else if c = '\\' then do
          let (text, s) ← s.forward.escape
          quotedBody double fuel (text.reverse ++ acc) s
        else quotedBody double fuel (c :: acc) s.forward
      else if c = '\'' then
        if cs.head? = some '\'' then quotedBody double fuel ('\'' :: acc) (s.advance 2)
        else pure (acc, s.forward)
      else quotedBody double fuel (c :: acc) s.forward

/-- A quoted scalar; its opening quote is ahead. -/
def quotedScalar (s : Scan) (double : Bool) : Except Fault (Token × Scan) := do
  let (acc, s) ← quotedBody double (s.rest.length + 1) [] s.forward
  pure (.scalar false (String.ofList acc.reverse), s)

/-- The length of the run of plain characters ahead. -/
def plainRun (inFlow : Bool) : List Char → Nat
  | [] => 0
  | c :: cs =>
    let next := cs.head?
    let ends := endsToken (some c) ||
      (c = ':' && (endsToken next ||
        (inFlow && (match next with | some d => ",[]\x7b\x7d".toList.contains d | none => false)))) ||
      (inFlow && ",?[]\x7b\x7d".toList.contains c)
    if ends then 0 else plainRun inFlow cs + 1

/-- The empty lines after a line break inside a plain scalar; none if a document marker follows. -/
def plainBreaks : Nat → Scan → Option (List Char) × Scan
  | 0, s => (some [], s)
  | fuel + 1, s =>
    match s.rest with
    | ' ' :: _ => plainBreaks fuel s.forward
    | _ =>
      match s.lineBreak with
      | ([], s) => (some [], s)
      | (b, s) =>
        if s.atAnyMarker then (none, s)
        else
          let (more, s) := plainBreaks fuel s
          (more.map (b ++ ·), s)

/-- Spaces and line breaks after a run of plain characters. -/
def plainSpaces (s : Scan) : List Char × Scan :=
  let (blanks, s) := s.span (· = ' ')
  match s.lineBreak with
  | ([], s) => (blanks, s)
  | (b, s) =>
    let s := { s with keyAllowed := true }
    if s.atAnyMarker then ([], s)
    else
      match plainBreaks (s.rest.length + 1) s with
      | (none, s) => ([], s)
      | (some breaks, s) =>
        let head := if b ≠ ['\n'] then b else if breaks.isEmpty then [' '] else []
        (head ++ breaks, s)

/-- The characters of a plain scalar, in reverse. -/
def plainBody (indent : Int) : Nat → List Char → List Char → Scan → List Char × Scan
  | 0, acc, _, s => (acc, s)
  | fuel + 1, acc, spaces, s =>
    let n := plainRun (s.flow ≠ 0) s.rest
    if s.peek 0 = some '#' || n = 0 then (acc, s)
    else
      let acc := (s.rest.take n).reverse ++ spaces.reverse ++ acc
      let s := { s.advance n with keyAllowed := false }
      let (spaces, s) := s.plainSpaces
      if spaces.isEmpty || s.peek 0 = some '#' || (s.flow = 0 && s.column < indent) then (acc, s)
      else plainBody indent fuel acc spaces s

/-- A plain scalar. -/
def plainScalar (s : Scan) : Token × Scan :=
  let (acc, s) := plainBody (s.indent + 1) (s.rest.length + 1) [] [] s
  (.scalar true (String.ofList acc.reverse), s)

/-- Whether a plain scalar may begin here. -/
def atPlain (s : Scan) : Bool :=
  match s.peek 0 with
  | none => false
  | some c =>
    (!endsToken (some c) && !"-?:,[]\x7b\x7d#&*!|>'\"%@`".toList.contains c) ||
      (!endsToken (s.peek 1) && (c = '-' || (s.flow = 0 && (c = '?' || c = ':'))))

/-! ## One token at a time -/

/-- A marker of documents. -/
def fetchMarker (s : Scan) (t : Token) : Except Fault Scan := do
  let s ← (s.unwindTo (-1)).dropKey
  pure (({ s with keyAllowed := false }.advance 3).emit t)

/-- The opening of a flow collection. -/
def fetchOpening (s : Scan) (t : Token) : Except Fault Scan := do
  let s ← s.saveKey
  pure ({ s with flow := s.flow + 1, keyAllowed := true }.forward.emit t)

/-- The closing of a flow collection. -/
def fetchClosing (s : Scan) (t : Token) : Except Fault Scan := do
  let s ← s.dropKey
  if s.flow = 0 then throw .malformed
  pure ({ s with flow := s.flow - 1, keyAllowed := false }.forward.emit t)

/-- In block context a collection may open here if a key may begin here. -/
def openBlock (s : Scan) (t : Token) : Except Fault Scan :=
  if s.flow ≠ 0 then pure s
  else if !s.keyAllowed then throw .malformed
  else
    match s.indentTo s.column with
    | (true, s) => pure (s.emit t)
    | (false, s) => pure s

/-- `-`, an entry of a block sequence. -/
def fetchBlockEntry (s : Scan) : Except Fault Scan := do
  let s ← s.openBlock .blockSequence
  let s ← { s with keyAllowed := true }.dropKey
  pure (s.forward.emit .blockEntry)

/-- `?`, an explicit key. -/
def fetchKey (s : Scan) : Except Fault Scan := do
  let s ← s.openBlock .blockMapping
  let s ← { s with keyAllowed := s.flow = 0 }.dropKey
  pure (s.forward.emit .key)

/-- `:`, a value; what stands before it on the line may turn out to be its key. -/
def fetchValue (s : Scan) : Except Fault Scan :=
  match s.keys.get? s.flow with
  | some k =>
    let s := { s with keys := s.keys.remove s.flow }.insertAt k.place .key
    let s :=
      if s.flow ≠ 0 then s
      else
        match s.indentTo k.column with
        | (true, s) => s.insertAt k.place .blockMapping
        | (false, s) => s
    pure ({ s with keyAllowed := false }.forward.emit .value)
  | none => do
    let s ← s.openBlock .blockMapping
    let s ← { s with keyAllowed := s.flow = 0 }.dropKey
    pure (s.forward.emit .value)

/-- `,` between the entries of a flow collection. -/
def fetchFlowEntry (s : Scan) : Except Fault Scan := do
  let s ← { s with keyAllowed := true }.dropKey
  pure (s.forward.emit .flowEntry)

/-- A token with which a key may begin. -/
def fetchKeyLike (s : Scan) (read : Scan → Except Fault (Token × Scan)) : Except Fault Scan := do
  let s ← s.saveKey
  let (t, s) ← read { s with keyAllowed := false }
  pure (s.emit t)

/-- A block scalar. -/
def fetchBlockScalar (s : Scan) (folded : Bool) : Except Fault Scan := do
  let s ← { s with keyAllowed := true }.dropKey
  let (t, s) ← s.blockScalar folded
  pure (s.emit t)

/-- The next token; one is ahead, and blanks before it are passed. -/
def fetch (s : Scan) (c : Char) : Except Fault Scan :=
  let atLineStart := s.column = 0
  if c = '%' && atLineStart then do
    let s ← (s.unwindTo (-1)).dropKey
    let (t, s) ← { s with keyAllowed := false }.directive
    pure (s.emit t)
  else if atLineStart && s.atMarker '-' then s.fetchMarker .documentStart
  else if atLineStart && s.atMarker '.' then s.fetchMarker .documentEnd
  else if c = '[' then s.fetchOpening .flowSequence
  else if c = '\x7b' then s.fetchOpening .flowMapping
  else if c = ']' then s.fetchClosing .flowSequenceEnd
  else if c = '\x7d' then s.fetchClosing .flowMappingEnd
  else if c = ',' then s.fetchFlowEntry
  else if c = '-' && endsToken (s.peek 1) then s.fetchBlockEntry
  else if c = '?' && (s.flow ≠ 0 || endsToken (s.peek 1)) then s.fetchKey
  else if c = ':' && (s.flow ≠ 0 || endsToken (s.peek 1)) then s.fetchValue
  else if c = '*' then
    s.fetchKeyLike fun s => do let (n, s) ← s.anchorName; pure (.alias n, s)
  else if c = '&' then
    s.fetchKeyLike fun s => do let (n, s) ← s.anchorName; pure (.anchor n, s)
  else if c = '!' then s.fetchKeyLike tag
  else if c = '|' && s.flow = 0 then s.fetchBlockScalar false
  else if c = '>' && s.flow = 0 then s.fetchBlockScalar true
  else if c = '\'' then s.fetchKeyLike (quotedScalar · false)
  else if c = '"' then s.fetchKeyLike (quotedScalar · true)
  else if s.atPlain then s.fetchKeyLike fun s => pure s.plainScalar
  else throw .malformed

/-- All tokens up to the end of the text. -/
def run : Nat → Scan → Except Fault Scan
  | 0, _ => throw .malformed
  | fuel + 1, s => do
    let s := if s.index = 0 && s.peek 0 = some '\ufeff' then s.forward else s
    let s ← (toNextToken (s.rest.length + 1) s).dropLapsed
    let s := s.unwindTo s.column
    match s.peek 0 with
    | none => (s.unwindTo (-1)).dropKey
    | some c =>
      let s ← s.fetch c
      run fuel s

end Scan

/-- Whether a character may stand in a YAML text. -/
def isAllowed (c : Char) : Bool :=
  let n := c.toNat
  n = 0x9 || n = 0xa || n = 0xd || (0x20 ≤ n && n ≤ 0x7e) || n = 0x85 ||
    (0xa0 ≤ n && n ≤ 0xd7ff) || (0xe000 ≤ n && n ≤ 0xfffd) || 0x10000 ≤ n

/-- The tokens of a text. -/
def tokens (text : String) : Except Fault (List Token) :=
  let cs := text.toList
  if cs.all isAllowed then do
    let s ← Scan.run (cs.length + 2) { rest := cs }
    pure s.tokens.reverse
  else throw .malformed

end TreeFeatures.Yaml
