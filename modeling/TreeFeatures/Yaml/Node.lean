import TreeFeatures.Yaml.Token

/-!
# YAML nodes

`Node.ofText` reads the only document of a text as a tree of tagged nodes. An alias stands for a
copy of the node that its anchor names. A collection may contain aliases to itself; such a
collection is unrolled a few levels deep, below which it is empty.

A plain scalar without a tag gets one by its form (`Tag.ofPlain`): truth value, double, integer,
merge key, null, time or value key, in this order of preference, and text otherwise.
-/

namespace TreeFeatures.Yaml

/-- What a node is to be read as. -/
inductive Tag where
  | null
  | bool
  | int
  | float
  | text
  | binary
  | timestamp
  | sequence
  | mapping
  | orderedMapping
  | pairs
  | set
  | merge
  | value
  | unknown
  deriving DecidableEq

namespace Tag

/-- The common beginning of the known tags. -/
def standard : String := "tag:yaml.org,2002:"

/-- The tag of a resolved name. -/
def ofName (name : String) : Tag :=
  let known : List (String × Tag) :=
    [("null", null), ("bool", bool), ("int", int), ("float", float), ("str", text),
      ("binary", binary), ("timestamp", timestamp), ("seq", sequence), ("map", mapping),
      ("omap", orderedMapping), ("pairs", pairs), ("set", set), ("merge", merge),
      ("value", value)]
  ((known.find? fun e => standard ++ e.1 == name).map Prod.snd).getD unknown

/-! ## The form of plain scalars -/

/-- A digit of a number written with separators. -/
def digitOrBar (p : Char → Bool) (c : Char) : Bool := p c || c = '_'

/-- Whether there are characters and all satisfy a condition. -/
def someAll (p : Char → Bool) (cs : List Char) : Bool := !cs.isEmpty && cs.all p

/-- The characters after a sign, if there is one. -/
def unsigned : List Char → List Char
  | '+' :: cs | '-' :: cs => cs
  | cs => cs

/-- One of the digits of a base up to eight. -/
def isDigitBelow (base : Nat) (c : Char) : Bool := c.isDigit && c.toNat - '0'.toNat < base

/-- A hexadecimal digit. -/
def isHexDigit (c : Char) : Bool := (Json.hexDigit? c).isSome

/-- The pieces between the occurrences of a character. -/
def splitAt (sep : Char) : List Char → List (List Char)
  | [] => [[]]
  | c :: cs =>
    if c = sep then [] :: splitAt sep cs
    else
      match splitAt sep cs with
      | piece :: pieces => (c :: piece) :: pieces
      | [] => [[c]]

/-- A number below sixty with one or two digits. -/
def isSixtieth : List Char → Bool
  | [a] => a.isDigit
  | [a, b] => isDigitBelow 6 a && b.isDigit
  | _ => false

/-- Digits with separators, the first of them a digit. -/
def isGrouped : List Char → Bool
  | c :: cs => c.isDigit && cs.all (digitOrBar Char.isDigit)
  | [] => false

/-- The form of an integer: binary, octal, decimal, hexadecimal or in base sixty. -/
def isIntForm (cs : List Char) : Bool :=
  match unsigned cs with
  | ['0'] => true
  | '0' :: 'b' :: ds => someAll (digitOrBar (isDigitBelow 2)) ds
  | '0' :: 'x' :: ds => someAll (digitOrBar isHexDigit) ds
  | '0' :: ds => someAll (digitOrBar (isDigitBelow 8)) ds
  | ds =>
    match splitAt ':' ds with
    | first :: rest => isGrouped first && rest.all isSixtieth
    | [] => false

/-- An exponent with its sign, or nothing. -/
def isExponentForm : List Char → Bool
  | [] => true
  | e :: sign :: ds => (e = 'e' || e = 'E') && (sign = '+' || sign = '-') && someAll Char.isDigit ds
  | _ => false

/-- The part of a double after its point. -/
def isFractionForm (cs : List Char) : Bool :=
  isExponentForm (cs.dropWhile (digitOrBar Char.isDigit))

/-- The form of a double. -/
def isFloatForm (cs : List Char) : Bool :=
  let body := unsigned cs
  let whole := body.takeWhile (· ≠ '.')
  let after := body.drop (whole.length + 1)
  let word := String.ofList after
  if whole.length = body.length then false
  else if whole.isEmpty then
    (word = "inf" || word = "Inf" || word = "INF") ||
      (body = cs &&
        ((word = "nan" || word = "NaN" || word = "NAN") ||
          ((after.head?.any Char.isDigit) && isFractionForm after)))
  else
    match splitAt ':' whole with
    | [_] => isGrouped whole && isFractionForm after
    | first :: rest => isGrouped first && rest.all isSixtieth && after.all (digitOrBar Char.isDigit)
    | [] => false

/-- Up to two digits at the front, and the rest. -/
def twoDigits? : List Char → Option (Nat × List Char)
  | a :: b :: cs =>
    if a.isDigit && b.isDigit then some (Json.digitsValue [a, b], cs)
    else if a.isDigit then some (Json.digitsValue [a], b :: cs)
    else none
  | [a] => if a.isDigit then some (Json.digitsValue [a], []) else none
  | [] => none

/-- Exactly two digits at the front, and the rest. -/
def pair? : List Char → Option (Nat × List Char)
  | a :: b :: cs => if a.isDigit && b.isDigit then some (Json.digitsValue [a, b], cs) else none
  | _ => none

/-- The rest after a given character. -/
def after? (c : Char) : List Char → Option (List Char)
  | d :: cs => if c = d then some cs else none
  | [] => none

/-- The clock reading of a time. -/
structure Clock where
  hour : Nat
  minute : Nat
  second : Nat
  fraction : List Char
  /-- Offset from universal time in minutes. -/
  offset : Option Int

/-- The zone at the end of a time. -/
def zone? (cs : List Char) : Option (Option Int) :=
  match cs.dropWhile (fun c => c = ' ' || c = '\t') with
  | [] => if cs.isEmpty then some none else none
  | ['Z'] => some (some 0)
  | sign :: ds =>
    if sign = '+' || sign = '-' then do
      let (hours, rest) ← twoDigits? ds
      let minutes ← match rest with
        | [] => some 0
        | ':' :: ms => do
          let (m, rest) ← pair? ms
          if rest.isEmpty then some m else none
        | _ => none
      let total : Int := hours * 60 + minutes
      some (some (if sign = '-' then -total else total))
    else none

/-- The clock reading after a date. -/
def clock? (cs : List Char) : Option Clock := do
  let cs ← match cs with
    | c :: rest =>
      if c = 'T' || c = 't' then some rest
      else if c = ' ' || c = '\t' then some (rest.dropWhile fun c => c = ' ' || c = '\t')
      else none
    | [] => none
  let (hour, cs) ← twoDigits? cs
  let cs ← after? ':' cs
  let (minute, cs) ← pair? cs
  let cs ← after? ':' cs
  let (second, cs) ← pair? cs
  let (fraction, cs) := match cs with
    | '.' :: ds => (ds.takeWhile Char.isDigit, ds.dropWhile Char.isDigit)
    | cs => ([], cs)
  let offset ← zone? cs
  some ⟨hour, minute, second, fraction, offset⟩

/-- Year, month, day and, after them, the clock reading of a time. -/
def timeParts? : List Char → Option (Date × Option Clock)
  | a :: b :: c :: d :: cs =>
    if [a, b, c, d].all Char.isDigit then do
      let cs ← after? '-' cs
      let (month, cs) ← twoDigits? cs
      let cs ← after? '-' cs
      let (day, cs) ← twoDigits? cs
      let date : Date := ⟨Json.digitsValue [a, b, c, d], month, day⟩
      if cs.isEmpty then some (date, none)
      else do
        let clock ← clock? cs
        some (date, some clock)
    else none
  | _ => none

/-- The form of a time: a date with two-digit month and day, or a date with a clock reading. -/
def isTimeForm (cs : List Char) : Bool :=
  match timeParts? cs with
  | some (_, some _) => true
  | some (_, none) => cs.length = 10
  | none => false

/-- The words that are truth values. -/
def boolWords : List String :=
  ["yes", "Yes", "YES", "no", "No", "NO", "true", "True", "TRUE", "false", "False", "FALSE",
    "on", "On", "ON", "off", "Off", "OFF"]

/-- The tag of a plain scalar. -/
def ofPlain (s : String) : Tag :=
  let cs := s.toList
  if boolWords.contains s then bool
  else if isFloatForm cs then float
  else if isIntForm cs then int
  else if s = "<<" then merge
  else if ["", "~", "null", "Null", "NULL"].contains s then null
  else if isTimeForm cs then timestamp
  else if s = "=" then value
  else text

end Tag

/-- A node of a document. -/
inductive Node where
  | scalar (tag : Tag) (text : String)
  | sequence (tag : Tag) (items : List Node)
  | mapping (tag : Tag) (entries : List (Node × Node))
  /-- The collection of this anchor, which contains the place. -/
  | back (anchor : String)
  deriving Inhabited

namespace Node

/-! ## Collections that contain themselves -/

mutual

/-- Put a node at the places that refer to an anchor. -/
def subst (anchor : String) (inner : Node) : Node → Node
  | scalar t s => scalar t s
  | sequence t xs => sequence t (substAll anchor inner xs)
  | mapping t es => mapping t (substEntries anchor inner es)
  | back a => if a = anchor then inner else back a

/-- `subst` in several nodes. -/
def substAll (anchor : String) (inner : Node) : List Node → List Node
  | [] => []
  | x :: xs => subst anchor inner x :: substAll anchor inner xs

/-- `subst` in several entries. -/
def substEntries (anchor : String) (inner : Node) : List (Node × Node) → List (Node × Node)
  | [] => []
  | (k, v) :: es => (subst anchor inner k, subst anchor inner v) :: substEntries anchor inner es

/-- Whether a node refers to an anchor that encloses it. -/
def refersTo (anchor : String) : Node → Bool
  | scalar _ _ => false
  | sequence _ xs => anyRefersTo anchor xs
  | mapping _ es => anyEntryRefersTo anchor es
  | back a => a = anchor

/-- `refersTo` of some node. -/
def anyRefersTo (anchor : String) : List Node → Bool
  | [] => false
  | x :: xs => refersTo anchor x || anyRefersTo anchor xs

/-- `refersTo` of some entry. -/
def anyEntryRefersTo (anchor : String) : List (Node × Node) → Bool
  | [] => false
  | (k, v) :: es => refersTo anchor k || refersTo anchor v || anyEntryRefersTo anchor es

end

/-- The levels to which a collection that contains itself is unrolled: one more than the levels
of a settings document. -/
def unrollDepth : Nat := 5

/-- The collection without its content. -/
def emptied : Node → Node
  | sequence t _ => sequence t []
  | mapping t _ => mapping t []
  | n => n

/-- Put a collection into itself at the places that refer to it. -/
def unroll (anchor : String) (n : Node) : Node :=
  if n.refersTo anchor then
    (List.range unrollDepth).foldl (fun acc _ => subst anchor acc n) n.emptied
  else n

/-! ## From tokens to nodes -/

/-- The tokens still to be read, and the nodes that the anchors so far name. -/
structure Cursor where
  tokens : List Token
  anchors : Assoc String Node

/-- The tag handles of a document. -/
abbrev Handles := Assoc String String

namespace Cursor

/-- The next token. -/
def next? (c : Cursor) : Option Token := c.tokens.head?

/-- Pass a token. -/
def skip (c : Cursor) : Cursor := { c with tokens := c.tokens.drop 1 }

/-- Whether the next token is one of the given. -/
def at? (c : Cursor) (ts : List Token) : Bool :=
  match c.next? with
  | some t => ts.contains t
  | none => false

/-- Name a node by an anchor. -/
def bind (c : Cursor) (anchor : Option String) (n : Node) : Cursor :=
  match anchor with
  | some a => { c with anchors := c.anchors.put a n }
  | none => c

end Cursor

/-- Name a collection that is read to its end, also where nodes inside it refer to it. -/
def Cursor.close (c : Cursor) (anchor : String) (n : Node) : Cursor :=
  { c with anchors := Assoc.put (c.anchors.map fun e => (e.1, subst anchor n e.2)) anchor n }

/-- Anchor and tag in front of a node. -/
structure Properties where
  anchor : Option String := none
  tag : Option (Option String × String) := none

/-- The anchor and tag ahead, in either order. -/
def properties (c : Cursor) : Properties × Cursor :=
  match c.tokens with
  | .anchor a :: .tag h s :: rest => (⟨some a, some (h, s)⟩, { c with tokens := rest })
  | .anchor a :: rest => (⟨some a, none⟩, { c with tokens := rest })
  | .tag h s :: .anchor a :: rest => (⟨some a, some (h, s)⟩, { c with tokens := rest })
  | .tag h s :: rest => (⟨none, some (h, s)⟩, { c with tokens := rest })
  | _ => ({}, c)

/-- The name that a written tag resolves to. -/
def resolveTag (handles : Handles) :
    Option (Option String × String) → Except Fault (Option String)
  | none => pure none
  | some (none, suffix) => pure (some suffix)
  | some (some handle, suffix) =>
    match handles.get? handle with
    | some start => pure (some (start ++ suffix))
    | none => throw .malformed

/-- The scalar that stands where nothing is written. -/
def emptyScalar : Node := scalar .null ""

/-- The tag of a scalar: as written, or by its form where none or `!` is written. -/
def scalarTag (name : Option String) (plain : Bool) (s : String) : Tag :=
  match name with
  | some "!" => Tag.ofPlain s
  | some n => Tag.ofName n
  | none => if plain then Tag.ofPlain s else .text

/-- The tag of a collection. -/
def collectionTag (name : Option String) (default : Tag) : Tag :=
  match name with
  | some "!" | none => default
  | some n => Tag.ofName n

mutual

/-- One node. Block collections are allowed only outside flow collections, and entries without
indentation only as the value or key of a block mapping. -/
def parse (handles : Handles) : Nat → Bool → Bool → Cursor → Except Fault (Node × Cursor)
  | 0, _, _, _ => throw .malformed
  | fuel + 1, block, indentless, c =>
    match c.next? with
    | some (.alias a) =>
      match c.anchors.get? a with
      | some n => pure (n, c.skip)
      | none => throw .malformed
    | _ => do
      let (props, c) := properties c
      let name ← resolveTag handles props.tag
      if props.anchor.any c.anchors.has then throw .malformed
      let collection (n : Node) (c : Cursor) : Node × Cursor :=
        match props.anchor with
        | some a => let n := n.unroll a; (n, c.close a n)
        | none => (n, c)
      let opened := match props.anchor with
        | some a => c.bind (some a) (.back a)
        | none => c
      match c.next? with
      | some .blockEntry =>
        if indentless then
          let (items, c) ← indentlessItems handles fuel opened
          pure (collection (sequence (collectionTag name .sequence) items) c)
        else emptyNode props name c
      | some (.scalar plain s) =>
        let n := scalar (scalarTag name plain s) s
        pure (n, c.skip.bind props.anchor n)
      | some .flowSequence =>
        let (items, c) ← flowItems handles fuel true opened.skip
        pure (collection (sequence (collectionTag name .sequence) items) c)
      | some .flowMapping =>
        let (entries, c) ← flowEntries handles fuel true opened.skip
        pure (collection (mapping (collectionTag name .mapping) entries) c)
      | some .blockSequence =>
        if block then
          let (items, c) ← blockItems handles fuel opened.skip
          pure (collection (sequence (collectionTag name .sequence) items) c)
        else emptyNode props name c
      | some .blockMapping =>
        if block then
          let (entries, c) ← blockEntries handles fuel opened.skip
          pure (collection (mapping (collectionTag name .mapping) entries) c)
        else emptyNode props name c
      | _ => emptyNode props name c

/-- A node of which only anchor or tag are written. -/
def emptyNode (props : Properties) (name : Option String) (c : Cursor) :
    Except Fault (Node × Cursor) :=
  if props.anchor.isSome || name.isSome then
    let n := scalar (scalarTag name true "") ""
    pure (n, c.bind props.anchor n)
  else throw .malformed

/-- A node, or nothing before one of the given tokens. -/
def parseUnless (handles : Handles) :
    Nat → Bool → Bool → List Token → Cursor → Except Fault (Node × Cursor)
  | 0, _, _, _, _ => throw .malformed
  | fuel + 1, block, indentless, stops, c =>
    if c.at? stops then pure (emptyScalar, c) else parse handles fuel block indentless c

/-- The items of a block sequence. -/
def blockItems (handles : Handles) : Nat → Cursor → Except Fault (List Node × Cursor)
  | 0, _ => throw .malformed
  | fuel + 1, c =>
    match c.next? with
    | some .blockEntry => do
      let (n, c) ← parseUnless handles fuel true false [.blockEntry, .blockEnd] c.skip
      let (ns, c) ← blockItems handles fuel c
      pure (n :: ns, c)
    | some .blockEnd => pure ([], c.skip)
    | _ => throw .malformed

/-- The items of a sequence that is not indented. -/
def indentlessItems (handles : Handles) : Nat → Cursor → Except Fault (List Node × Cursor)
  | 0, _ => throw .malformed
  | fuel + 1, c =>
    match c.next? with
    | some .blockEntry => do
      let (n, c) ←
        parseUnless handles fuel true false [.blockEntry, .key, .value, .blockEnd] c.skip
      let (ns, c) ← indentlessItems handles fuel c
      pure (n :: ns, c)
    | _ => pure ([], c)

/-- The entries of a block mapping. -/
def blockEntries (handles : Handles) : Nat → Cursor → Except Fault (List (Node × Node) × Cursor)
  | 0, _ => throw .malformed
  | fuel + 1, c => do
    let stops : List Token := [.key, .value, .blockEnd]
    let entry (k : Node) (c : Cursor) : Except Fault (List (Node × Node) × Cursor) := do
      let (v, c) ←
        if c.at? [.value] then parseUnless handles fuel true true stops c.skip
        else pure (emptyScalar, c)
      let (es, c) ← blockEntries handles fuel c
      pure ((k, v) :: es, c)
    match c.next? with
    | some .key =>
      let (k, c) ← parseUnless handles fuel true true stops c.skip
      entry k c
    | some .value => entry emptyScalar c
    | some .blockEnd => pure ([], c.skip)
    | _ => throw .malformed

/-- The items of a flow sequence. -/
def flowItems (handles : Handles) : Nat → Bool → Cursor → Except Fault (List Node × Cursor)
  | 0, _, _ => throw .malformed
  | fuel + 1, first, c => do
    if c.at? [.flowSequenceEnd] then return ([], c.skip)
    let c ←
      if first then pure c
      else if c.at? [.flowEntry] then pure c.skip
      else throw .malformed
    match c.next? with
    | some .flowSequenceEnd => pure ([], c.skip)
    | some .key =>
      let (k, c) ←
        parseUnless handles fuel false false [.value, .flowEntry, .flowSequenceEnd] c.skip
      let (v, c) ←
        if c.at? [.value] then
          parseUnless handles fuel false false [.flowEntry, .flowSequenceEnd] c.skip
        else pure (emptyScalar, c)
      let (ns, c) ← flowItems handles fuel false c
      pure (mapping .mapping [(k, v)] :: ns, c)
    | _ =>
      let (n, c) ← parse handles fuel false false c
      let (ns, c) ← flowItems handles fuel false c
      pure (n :: ns, c)

/-- The entries of a flow mapping. -/
def flowEntries (handles : Handles) :
    Nat → Bool → Cursor → Except Fault (List (Node × Node) × Cursor)
  | 0, _, _ => throw .malformed
  | fuel + 1, first, c => do
    if c.at? [.flowMappingEnd] then return ([], c.skip)
    let c ←
      if first then pure c
      else if c.at? [.flowEntry] then pure c.skip
      else throw .malformed
    match c.next? with
    | some .flowMappingEnd => pure ([], c.skip)
    | some .key =>
      let (k, c) ←
        parseUnless handles fuel false false [.value, .flowEntry, .flowMappingEnd] c.skip
      let (v, c) ←
        if c.at? [.value] then
          parseUnless handles fuel false false [.flowEntry, .flowMappingEnd] c.skip
        else pure (emptyScalar, c)
      let (es, c) ← flowEntries handles fuel false c
      pure ((k, v) :: es, c)
    | _ =>
      let (k, c) ← parse handles fuel false false c
      let (es, c) ← flowEntries handles fuel false c
      pure ((k, emptyScalar) :: es, c)

end

/-- The handles that the directives ahead declare, with the two standard ones. -/
def directives : Nat → Bool → Handles → Cursor → Except Fault (Handles × Cursor)
  | 0, _, _, _ => throw .malformed
  | fuel + 1, versioned, handles, c =>
    match c.next? with
    | some (.directive "YAML" arguments) =>
      if versioned || arguments.head? ≠ some "1" then throw .malformed
      else directives fuel true handles c.skip
    | some (.directive "TAG" [handle, start]) =>
      if handles.has handle then throw .malformed
      else directives fuel versioned (handles.put handle start) c.skip
    | some (.directive _ _) => directives fuel versioned handles c.skip
    | _ =>
      let standard : Handles := [("!", "!"), ("!!", Tag.standard)]
      pure (standard.foldl (fun hs e => if hs.has e.1 then hs else hs.put e.1 e.2) handles, c)

/-- The end of the only document: markers of its end and nothing else. -/
def documentDone (ts : List Token) : Except Fault Unit :=
  if ts.all (· == Token.documentEnd) then pure () else throw .malformed

/-- The root node of the only document, if there is a document. -/
def ofTokens (ts : List Token) : Except Fault (Option Node) := do
  let fuel := 4 * ts.length + 8
  match ts with
  | [] => pure none
  | .directive _ _ :: _ | .documentStart :: _ =>
    let (handles, c) ← directives fuel false [] ⟨ts, []⟩
    if !c.at? [.documentStart] then throw .malformed
    let c := c.skip
    match c.next? with
    | none | some .documentEnd | some .documentStart | some (.directive _ _) =>
      documentDone c.tokens
      pure (some emptyScalar)
    | _ =>
      let (n, c) ← parse handles fuel true false c
      documentDone c.tokens
      pure (some n)
  | _ =>
    let (handles, c) ← directives fuel false [] ⟨ts, []⟩
    let (n, c) ← parse handles fuel true false c
    documentDone c.tokens
    pure (some n)

/-- The root node of the only document of a text. -/
def ofText (text : String) : Except Fault (Option Node) := do
  let ts ← tokens text
  ofTokens ts

end Node

end TreeFeatures.Yaml
