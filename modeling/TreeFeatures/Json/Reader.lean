import TreeFeatures.Value

/-!
# Reading JSON

`Json.read` accepts one JSON value with blanks around it, and besides the standard the words
`NaN`, `Infinity` and `-Infinity`. A name that is repeated in an object keeps its first place and
its last value.

Two limits of the interpreter are left out. It has a bound on nested calls: a text nested so deeply
that `json.loads` meets it ends there with a fault that is no JSON error, and reads here like any
other text. And it has texts with half of a surrogate pair in them; one that stands alone reads here
as the replacement character U+FFFD.

Every function takes the characters still to be read and returns what it read with the rest. The
recursion over nested values is bounded by the number of characters.
-/

namespace TreeFeatures.Json

/-- The most digits that an integer may have. -/
def maxDigits : Nat := 4300

/-- The characters after blanks. -/
def skipBlanks (cs : List Char) : List Char :=
  cs.dropWhile fun c => c = ' ' || c = '\t' || c = '\n' || c = '\r'

/-- The rest after a given beginning. -/
def dropLiteral? : List Char → List Char → Option (List Char)
  | [], cs => some cs
  | w :: ws, c :: cs => if w = c then dropLiteral? ws cs else none
  | _ :: _, [] => none

/-- The value of a hexadecimal digit. -/
def hexDigit? (c : Char) : Option Nat :=
  if '0' ≤ c ∧ c ≤ '9' then some (c.toNat - '0'.toNat)
  else if 'a' ≤ c ∧ c ≤ 'f' then some (c.toNat - 'a'.toNat + 10)
  else if 'A' ≤ c ∧ c ≤ 'F' then some (c.toNat - 'A'.toNat + 10)
  else none

/-- The number of exactly four hexadecimal digits. -/
def fourHex? : List Char → Option (Nat × List Char)
  | a :: b :: c :: d :: rest => do
    let a ← hexDigit? a
    let b ← hexDigit? b
    let c ← hexDigit? c
    let d ← hexDigit? d
    some (((a * 16 + b) * 16 + c) * 16 + d, rest)
  | _ => none

/-- The number of a digit sequence. -/
def digitsValue (ds : List Char) : Nat := ds.foldl (fun n d => n * 10 + (d.toNat - '0'.toNat)) 0

/-- The character of the escape that follows a backslash. -/
def escape? : List Char → Option (Char × List Char)
  | '"' :: rest => some ('"', rest)
  | '\\' :: rest => some ('\\', rest)
  | '/' :: rest => some ('/', rest)
  | 'b' :: rest => some ('\x08', rest)
  | 'f' :: rest => some ('\x0c', rest)
  | 'n' :: rest => some ('\n', rest)
  | 'r' :: rest => some ('\r', rest)
  | 't' :: rest => some ('\t', rest)
  | 'u' :: rest => do
    let (high, rest) ← fourHex? rest
    if 0xd800 ≤ high ∧ high < 0xdc00 then
      match rest with
      | '\\' :: 'u' :: rest' =>
        match fourHex? rest' with
        | some (low, after) =>
          if 0xdc00 ≤ low ∧ low < 0xe000 then
            some (Char.ofNat (0x10000 + (high - 0xd800) * 0x400 + (low - 0xdc00)), after)
          else some ('\ufffd', rest)
        | none => some ('\ufffd', rest)
      | _ => some ('\ufffd', rest)
    else if 0xdc00 ≤ high ∧ high < 0xe000 then some ('\ufffd', rest)
    else some (Char.ofNat high, rest)
  | _ => none

/-- The characters up to the closing quote, in reverse; the opening quote is read already. -/
def stringBody : Nat → List Char → List Char → Option (String × List Char)
  | 0, _, _ => none
  | fuel + 1, acc, cs =>
    match cs with
    | '"' :: rest => some (String.ofList acc.reverse, rest)
    | '\\' :: rest => do
      let (c, rest) ← escape? rest
      stringBody fuel (c :: acc) rest
    | c :: rest => if c.toNat < 0x20 then none else stringBody fuel (c :: acc) rest
    | [] => none

/-- The digits of an exponent, with its sign. -/
def exponent? : List Char → Option (Int × List Char)
  | c :: rest =>
    if c = 'e' ∨ c = 'E' then
      let (negative, rest) := match rest with
        | '-' :: r => (true, r)
        | '+' :: r => (false, r)
        | r => (false, r)
      let ds := rest.takeWhile Char.isDigit
      if ds.isEmpty then none
      else some ((if negative then -1 else 1) * (digitsValue ds : Int), rest.dropWhile Char.isDigit)
    else none
  | [] => none

/-- A number: an integer, or a double if it has a fraction or an exponent. -/
def number? (cs : List Char) : Option (Value × List Char) :=
  let (negative, cs) := match cs with
    | '-' :: r => (true, r)
    | r => (false, r)
  let whole := match cs with
    | '0' :: _ => ['0']
    | _ => cs.takeWhile Char.isDigit
  let rest := cs.drop whole.length
  if whole.isEmpty then none
  else
    let (fraction, rest) := match rest with
      | '.' :: r =>
        let ds := r.takeWhile Char.isDigit
        if ds.isEmpty then ([], rest) else (ds, r.dropWhile Char.isDigit)
      | _ => ([], rest)
    match exponent? rest with
    | some (e, after) =>
      some (.real (.ofDecimal negative (digitsValue (whole ++ fraction)) (e - fraction.length)),
        after)
    | none =>
      if fraction.isEmpty then
        if maxDigits < whole.length then none
        else some (.int ((if negative then -1 else 1) * (digitsValue whole : Int)), rest)
      else
        some (.real (.ofDecimal negative (digitsValue (whole ++ fraction)) (-fraction.length)),
          rest)

mutual

/-- One value; the input starts with it. -/
def value? : Nat → List Char → Option (Value × List Char)
  | 0, _ => none
  | fuel + 1, cs =>
    match cs with
    | '"' :: rest => (stringBody (rest.length + 1) [] rest).map fun r => (.text r.1, r.2)
    | '[' :: rest =>
      match skipBlanks rest with
      | ']' :: rest => some (.list [], rest)
      | rest => (items? fuel rest).map fun r => (.list r.1, r.2)
    | '\x7b' :: rest =>
      match skipBlanks rest with
      | '\x7d' :: rest => some (.table [], rest)
      | rest => (entries? fuel rest).map fun r => (.table (Value.collapse r.1), r.2)
    | _ =>
      let word (w : String) (v : Value) : Option (Value × List Char) :=
        (dropLiteral? w.toList cs).map fun rest => (v, rest)
      word "null" .null <|> word "true" (.bool true) <|> word "false" (.bool false) <|>
        word "NaN" (.real .notANumber) <|> word "Infinity" (.real (.infinite false)) <|>
        word "-Infinity" (.real (.infinite true)) <|> number? cs

/-- The values of an array up to its closing bracket. -/
def items? : Nat → List Char → Option (List Value × List Char)
  | 0, _ => none
  | fuel + 1, cs => do
    let (v, rest) ← value? fuel cs
    match skipBlanks rest with
    | ',' :: rest =>
      let (vs, rest) ← items? fuel (skipBlanks rest)
      some (v :: vs, rest)
    | ']' :: rest => some ([v], rest)
    | _ => none

/-- The entries of an object up to its closing brace. -/
def entries? : Nat → List Char → Option (List (Value × Value) × List Char)
  | 0, _ => none
  | fuel + 1, cs =>
    match cs with
    | '"' :: rest => do
      let (name, rest) ← stringBody (rest.length + 1) [] rest
      match skipBlanks rest with
      | ':' :: rest =>
        let (v, rest) ← value? fuel (skipBlanks rest)
        match skipBlanks rest with
        | ',' :: rest =>
          let (es, rest) ← entries? fuel (skipBlanks rest)
          some ((.text name, v) :: es, rest)
        | '\x7d' :: rest => some ([(.text name, v)], rest)
        | _ => none
      | _ => none
    | _ => none

end

/-- The value that a text denotes, if it is JSON, however deeply it is nested (`json.loads`). -/
def read (s : String) : Option Value :=
  let cs := s.toList
  match value? (2 * cs.length + 2) (skipBlanks cs) with
  | some (v, rest) => if (skipBlanks rest).isEmpty then some v else none
  | none => none

end TreeFeatures.Json
