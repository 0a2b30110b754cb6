import TreeFeatures.Text.Blank
import TreeFeatures.Yaml.Node

/-!
# YAML documents

`Document.read` is the value that a YAML text denotes. A mapping first takes in the entries of its
merge keys (`Node.flatten`), which stand before its own; of equal keys the later value wins, at the
place of the first. A collection is no key.

Collections are filled level by level, so of several faults the one at the least depth is reported,
and of those the first (`Finding.first`).

Two limits of the interpreter are left out. It has a bound on nested calls: a text nested so deeply
that `yaml.safe_load` meets it ends there with a fault that is no YAML error, and reads here like any
other text. And it has texts with half of a surrogate pair in them; an escape of one, as `"\ud800"`,
reads here as the replacement character U+FFFD.
-/

namespace TreeFeatures.Yaml

/-- The first fault of a document so far, with its depth. -/
abbrev Finding := Option (Nat × Fault)

/-- Of two findings the one that is met first; the first argument stands before the second. -/
def Finding.first : Finding → Finding → Finding
  | some (d, f), some (d', f') => if d' < d then some (d', f') else some (d, f)
  | some x, none => some x
  | none, x => x

/-! ## Scalars -/

namespace Scalar

-- Powers are those of the core library, whatever else is imported next to this module.
attribute [local instance (high)] instPowNat

/-- The digits of a text in a base: blanks around it, a sign and bars between digits are allowed. -/
def integer? (base : Nat) (s : String) : Except Fault Int :=
  let cs := trimBlanks s.toList
  let body := Tag.unsigned cs
  let ds := body.filterMap Json.hexDigit?
  let ok := !body.isEmpty && ds.length = body.length && ds.all (· < base)
  if !ok then
    throw (.badScalar
      ("invalid literal for int() with base " ++ toString base ++ ": " ++ quoted s))
  else if base = 10 && Json.maxDigits < ds.length then
    throw (.badScalar ("Exceeds the limit (4300 digits) for integer string conversion: value has " ++
      toString ds.length ++ " digits; use sys.set_int_max_str_digits() to increase the limit"))
  else
    let n : Int := (ds.foldl (fun n d => n * base + d) 0 : Nat)
    pure (if cs.head? = some '-' then -n else n)

/-- An integer in one of the written forms. -/
def int (s : String) : Except Fault Int := do
  let cs := s.toList.filter (· ≠ '_')
  let sign : Int := if cs.head? = some '-' then -1 else 1
  let body := Tag.unsigned cs
  match cs, body with
  | [], _ | _, [] => throw .emptyNumber
  | _, ['0'] => pure 0
  | _, '0' :: 'b' :: ds => do let n ← integer? 2 (String.ofList ds); pure (sign * n)
  | _, '0' :: 'x' :: ds => do let n ← integer? 16 (String.ofList ds); pure (sign * n)
  | _, '0' :: ds => do let n ← integer? 8 (String.ofList ('0' :: ds)); pure (sign * n)
  | _, ds => do
    let parts ← (Tag.splitAt ':' ds).mapM fun p => integer? 10 (String.ofList p)
    pure (sign * parts.foldl (fun n p => n * 60 + p) 0)

/-- A double in decimal notation, as a sign with digits and exponent; words stand for the values
that no decimal denotes. -/
def decimal? (cs : List Char) : Option Binary64 :=
  let negative := cs.head? = some '-'
  let body := Tag.unsigned cs
  let word := String.ofList body
  if word = "inf" || word = "infinity" then some (.infinite negative)
  else if word = "nan" then some .notANumber
  else
    let whole := body.takeWhile Char.isDigit
    let rest := body.drop whole.length
    let (fraction, rest) := match rest with
      | '.' :: r => (r.takeWhile Char.isDigit, r.dropWhile Char.isDigit)
      | r => ([], r)
    if whole.isEmpty && fraction.isEmpty then none
    else
      let digits := Json.digitsValue (whole ++ fraction)
      match rest with
      | [] => some (.ofDecimal negative digits (-fraction.length))
      | _ =>
        match Json.exponent? rest with
        | some (e, []) => some (.ofDecimal negative digits (e - fraction.length))
        | _ => none

/-- A double of which the text is a decimal. -/
def plainFloat (cs : List Char) : Except Fault Binary64 :=
  match decimal? (trimBlanks cs) with
  | some x => pure x
  | none => throw (.badScalar ("could not convert string to float: " ++ quoted (String.ofList cs)))

/-- The sum of parts in base sixty: the whole parts, and the digits behind the point. -/
def sexagesimal (negative : Bool) (parts : List (List Char)) : Except Fault Binary64 := do
  let _ ← parts.mapM plainFloat
  let whole (p : List Char) : Nat := Json.digitsValue (p.takeWhile Char.isDigit)
  let fraction := ((parts.getLast?.getD []).dropWhile (· ≠ '.')).drop 1
  let total := parts.foldl (fun n p => n * 60 + whole p) 0
  pure (.ofDecimal negative (total * 10 ^ fraction.length + Json.digitsValue fraction)
    (-fraction.length))

/-- A double in one of the written forms. -/
def float (s : String) : Except Fault Binary64 := do
  let cs := (s.toList.filter (· ≠ '_')).map Char.toLower
  let negative := cs.head? = some '-'
  let body := Tag.unsigned cs
  match cs with
  | [] => throw .emptyNumber
  | _ =>
    if body = ".inf".toList then pure (.infinite negative)
    else if body = ".nan".toList then pure .notANumber
    else if body.contains ':' then sexagesimal negative (Tag.splitAt ':' body)
    else
      match ← plainFloat body with
      | .finite s m e => pure (.finite (s != negative) m e)
      | .infinite s => pure (.infinite (s != negative))
      | .notANumber => pure .notANumber

/-- The truth value of a word, in any case. -/
def bool (s : String) : Except Fault Bool :=
  let word := String.ofList (s.toList.map Char.toLower)
  if ["yes", "true", "on"].contains word then pure true
  else if ["no", "false", "off"].contains word then pure false
  else throw .unknownWord

/-- The days of a month. -/
def daysIn (year month : Nat) : Nat :=
  if month = 2 then
    if year % 4 = 0 && (year % 100 ≠ 0 || year % 400 = 0) then 29 else 28
  else if [4, 6, 9, 11].contains month then 30
  else 31

/-- The reason why a date is none. -/
def dateFault? (d : Date) : Option String :=
  if d.year = 0 then some "year 0 is out of range"
  else if d.month = 0 || 12 < d.month then some "month must be in 1..12"
  else if d.day = 0 || daysIn d.year d.month < d.day then some "day is out of range for month"
  else none

/-- The first six digits of a fraction of a second, filled up with zeros. -/
def micros (ds : List Char) : Nat :=
  let ds := ds.take 6
  Json.digitsValue (ds ++ List.replicate (6 - ds.length) '0')

/-- A date, or a date with a clock reading. -/
def time (s : String) : Except Fault Value :=
  match Tag.timeParts? s.toList with
  | none => throw .notATime
  | some (d, none) =>
    match dateFault? d with
    | some reason => throw (.badScalar reason)
    | none => pure (.date d)
  | some (d, some c) =>
    let badOffset := match c.offset with
      | some m => m ≤ -1440 || 1440 ≤ m
      | none => false
    if badOffset then
      throw (.badScalar ("offset must be a timedelta strictly between -timedelta(hours=24) and " ++
        "timedelta(hours=24), not " ++ Value.durationLiteral (c.offset.getD 0) ++ "."))
    else
      match dateFault? d with
      | some reason => throw (.badScalar reason)
      | none =>
        if 23 < c.hour then throw (.badScalar "hour must be in 0..23")
        else if 59 < c.minute then throw (.badScalar "minute must be in 0..59")
        else if 59 < c.second then throw (.badScalar "second must be in 0..59")
        else
          pure (.instant ⟨d, c.hour, c.minute, c.second, micros c.fraction, c.offset⟩)

/-- The six bits of a base 64 character. -/
def base64Digit? (c : Char) : Option Nat :=
  if 'A' ≤ c ∧ c ≤ 'Z' then some (c.toNat - 'A'.toNat)
  else if 'a' ≤ c ∧ c ≤ 'z' then some (c.toNat - 'a'.toNat + 26)
  else if c.isDigit then some (c.toNat - '0'.toNat + 52)
  else if c = '+' then some 62
  else if c = '/' then some 63
  else none

/-- The bytes of base 64 text: `pending` holds the bits left over, `digits` counts the characters
of the open group and `pads` the padding behind them. Other characters are passed over. -/
def base64 : List Char → Nat → Nat → Nat → Option (List UInt8)
  | [], _, digits, _ => if digits = 0 then some [] else none
  | c :: cs, pending, digits, pads =>
    if c = '=' then
      if 2 ≤ digits ∧ 4 ≤ digits + pads + 1 then some [] else base64 cs pending digits (pads + 1)
    else
      match base64Digit? c with
      | none => base64 cs pending digits pads
      | some v =>
        if digits = 0 then base64 cs v 1 0
        else
          match digits with
          | 1 => (base64 cs (v % 16) 2 0).map (UInt8.ofNat (pending * 4 + v / 16) :: ·)
          | 2 => (base64 cs (v % 4) 3 0).map (UInt8.ofNat (pending * 16 + v / 4) :: ·)
          | _ => (base64 cs 0 0 0).map (UInt8.ofNat (pending * 64 + v) :: ·)

/-- The bytes of a scalar in base 64. -/
def binary (s : String) : Except Fault (List UInt8) :=
  if s.toList.any fun c => 0x7f < c.toNat then throw .malformed
  else
    match base64 s.toList 0 0 0 with
    | some bs => pure bs
    | none => throw .malformed

/-- The value of a scalar with a scalar's tag. -/
def value (t : Tag) (s : String) : Except Fault Value :=
  match t with
  | .null => pure .null
  | .bool => do let b ← bool s; pure (.bool b)
  | .int => do let n ← int s; pure (.int n)
  | .float => do let x ← float s; pure (.real x)
  | .text => pure (.text s)
  | .binary => do let bs ← binary s; pure (.bytes bs)
  | .timestamp => time s
  | _ => throw .malformed

end Scalar

/-! ## Collections -/

namespace Node

/-- The tag of a node. -/
def tag : Node → Tag
  | scalar t _ | sequence t _ | mapping t _ => t
  | back _ => .unknown

mutual

/-- The entries that the merge keys bring in, and the other entries. -/
def split : List (Node × Node) → Except Fault (List (Node × Node) × List (Node × Node))
  | [] => pure ([], [])
  | (k, v) :: es => do
    let brought ←
      if k.tag = .merge then
        match v with
        | mapping _ inner => do
          let (above, own) ← split inner
          pure (above ++ own)
        | sequence _ items => splitAll items
        | _ => throw .malformed
      else pure []
    let (merged, own) ← split es
    let key := match k with
      | scalar .value s => scalar .text s
      | k => k
    pure (brought ++ merged, if k.tag = .merge then own else (key, v) :: own)

/-- The entries of several mappings to merge; those of the first mapping come last. -/
def splitAll : List Node → Except Fault (List (Node × Node))
  | [] => pure []
  | mapping _ inner :: ns => do
    let (above, own) ← split inner
    let rest ← splitAll ns
    pure (rest ++ (above ++ own))
  | _ :: _ => throw .malformed

end

/-- The entries of a mapping with those of its merge keys in front. -/
def flatten (es : List (Node × Node)) : Except Fault (List (Node × Node)) := do
  let (merged, own) ← split es
  pure (merged ++ own)

/-- The text of a scalar; a mapping with a value key stands for the scalar of that key. -/
def scalarText : Nat → Node → Except Fault String
  | 0, _ => throw .malformed
  | _ + 1, scalar _ s => pure s
  | fuel + 1, mapping _ es =>
    match es.find? fun e => e.1.tag = .value with
    | some (_, v) => scalarText fuel v
    | none => throw .malformed
  | _ + 1, _ => throw .malformed

/-- Whether a value may be a key. -/
def isKey : Value → Bool
  | .list _ | .set _ | .table _ => false
  | _ => true

mutual

/-- The value of a node at a depth, with the first fault in it. -/
def value : Nat → Nat → Node → Value × Finding
  | 0, depth, _ => (.null, some (depth, .malformed))
  | fuel + 1, depth, n =>
    let fail (d : Nat) : Value × Finding := (.null, some (d, .malformed))
    match n.tag with
    | .mapping =>
      match n with
      | mapping _ es => let (vs, f) := table fuel (depth + 1) es; (.table (Value.collapse vs), f)
      | _ => (.table [], some (depth + 1, .malformed))
    | .set =>
      match n with
      | mapping _ es =>
        let (vs, f) := table fuel (depth + 1) es
        (.set ((Value.collapse vs).map Prod.fst), f)
      | _ => (.set [], some (depth + 1, .malformed))
    | .sequence =>
      match n with
      | sequence _ items => let (vs, f) := values fuel (depth + 1) items; (.list vs, f)
      | _ => (.list [], some (depth + 1, .malformed))
    | .orderedMapping | .pairs =>
      match n with
      | sequence _ items => let (vs, f) := tuples fuel (depth + 1) items; (.list vs, f)
      | _ => (.list [], some (depth + 1, .malformed))
    | .merge | .value | .unknown => fail depth
    | t =>
      match scalarText fuel n >>= Scalar.value t with
      | .ok v => (v, none)
      | .error f => (.null, some (depth, f))

/-- The values of several nodes. -/
def values : Nat → Nat → List Node → List Value × Finding
  | 0, depth, _ => ([], some (depth, .malformed))
  | _ + 1, _, [] => ([], none)
  | fuel + 1, depth, n :: ns =>
    let (v, f) := value fuel depth n
    let (vs, g) := values fuel depth ns
    (v :: vs, f.first g)

/-- The entries of a mapping after merging. -/
def table : Nat → Nat → List (Node × Node) → List (Value × Value) × Finding
  | 0, depth, _ => ([], some (depth, .malformed))
  | fuel + 1, depth, es =>
    match flatten es with
    | .ok es => entries fuel depth es
    | .error f => ([], some (depth, f))

/-- The values of several entries. -/
def entries : Nat → Nat → List (Node × Node) → List (Value × Value) × Finding
  | 0, depth, _ => ([], some (depth, .malformed))
  | _ + 1, _, [] => ([], none)
  | fuel + 1, depth, (k, v) :: es =>
    let (key, f) := value fuel depth k
    if !isKey key then ([], some (depth, .malformed))
    else
      let (v, g) := value fuel depth v
      let (rest, h) := entries fuel depth es
      ((key, v) :: rest, (f.first g).first h)

/-- The pairs of an ordered mapping: each item is a mapping with one entry. -/
def tuples : Nat → Nat → List Node → List Value × Finding
  | 0, depth, _ => ([], some (depth, .malformed))
  | _ + 1, _, [] => ([], none)
  | fuel + 1, depth, mapping _ [(k, v)] :: ns =>
    let (k, f) := value fuel depth k
    let (v, g) := value fuel depth v
    let (rest, h) := tuples fuel depth ns
    (.tuple [k, v] :: rest, (f.first g).first h)
  | _ + 1, depth, _ :: _ => ([], some (depth, .malformed))

/-- The number of nodes in a node. -/
def size : Node → Nat
  | scalar _ _ | back _ => 1
  | sequence _ ns => 1 + sizeAll ns
  | mapping _ es => 1 + sizeEntries es

/-- The number of nodes in several nodes. -/
def sizeAll : List Node → Nat
  | [] => 0
  | n :: ns => size n + sizeAll ns

/-- The number of nodes in several entries. -/
def sizeEntries : List (Node × Node) → Nat
  | [] => 0
  | (k, v) :: es => size k + size v + sizeEntries es

end

end Node

/-- The value of the only document of a text, however deeply it is nested; null if there is none
(`yaml.safe_load`). -/
def read (text : String) : Except Fault Value := do
  match ← Node.ofText text with
  | none => pure .null
  | some n =>
    match n.value (3 * n.size + 3) 0 with
    | (v, none) => pure v
    | (_, some (_, f)) => throw f

end TreeFeatures.Yaml
