import TreeFeatures.Number.Binary64
import TreeFeatures.Text.Quoted

/-!
# Dynamic values

Documents, environment variables and editor options hold values of no fixed shape. `Value` is
their common type: what a JSON or YAML text denotes, with the entries of a table in the order
written.

* `same` compares values as options are compared: truth values and integers and doubles by their
  numeric value, lists element by element, tables without regard to order.
* `literal` is the text of a value inside a message, `kind` the name of its type there.
-/

namespace TreeFeatures

/-- A day of the calendar. -/
structure Date where
  year : Nat
  month : Nat
  day : Nat
  deriving DecidableEq

/-- A point of time on a day, with the offset from universal time in minutes if it is known. -/
structure Instant where
  date : Date
  hour : Nat
  minute : Nat
  second : Nat
  micro : Nat
  offset : Option Int
  deriving DecidableEq

/-- A value of no fixed shape. -/
inductive Value where
  | null
  | bool (b : Bool)
  | int (n : Int)
  | real (x : Binary64)
  | text (s : String)
  | bytes (bs : List UInt8)
  | date (d : Date)
  | instant (t : Instant)
  | tuple (xs : List Value)
  | list (xs : List Value)
  | set (xs : List Value)
  | table (entries : List (Value × Value))
  deriving Inhabited

namespace Value

/-! ## Comparison -/

/-- The integer that a number or truth value equals. -/
def asInt? : Value → Option Int
  | bool b => some (if b then 1 else 0)
  | int n => some n
  | real x => x.toInt?
  | _ => none

/-- Equality of values that hold no other values. -/
def sameAtom (a b : Value) : Bool :=
  match a, b with
  | null, null => true
  | text s, text t => s == t
  | bytes s, bytes t => s == t
  | date d, date e => d == e
  | instant t, instant u => t == u
  | real x, real y => x.same y
  | a, b =>
    match a.asInt?, b.asInt? with
    | some m, some n => m == n
    | _, _ => false

mutual

/-- Whether two values are equal. -/
def same : Value → Value → Bool
  | list xs, list ys => sameAll xs ys
  | tuple xs, tuple ys => sameAll xs ys
  | set xs, set ys => xs.length == ys.length && eachIn xs ys
  | table es, table fs => es.length == fs.length && eachEntryIn es fs
  | list _, _ | tuple _, _ | set _, _ | table _, _ => false
  | a, b => sameAtom a b

/-- Whether two lists are equal element by element. -/
def sameAll : List Value → List Value → Bool
  | [], [] => true
  | x :: xs, y :: ys => same x y && sameAll xs ys
  | _, _ => false

/-- Whether each value has an equal in the second list. -/
def eachIn : List Value → List Value → Bool
  | [], _ => true
  | x :: xs, ys => ys.any (fun y => same x y) && eachIn xs ys

/-- Whether each entry has an equal in the second list. -/
def eachEntryIn : List (Value × Value) → List (Value × Value) → Bool
  | [], _ => true
  | (k, v) :: es, fs => fs.any (fun f => same k f.1 && same v f.2) && eachEntryIn es fs

end

/-- Whether a value is null, false, zero or empty. -/
def isHollow : Value → Bool
  | null => true
  | bool b => !b
  | int n => n == 0
  | real x => x.toInt? == some 0
  | text s => s == ""
  | bytes bs => bs.isEmpty
  | tuple xs | list xs | set xs => xs.isEmpty
  | table es => es.isEmpty
  | date _ | instant _ => false

/-! ## Tables -/

/-- The value of the first entry whose key is the given text. -/
def member? (entries : List (Value × Value)) (name : String) : Option Value :=
  (entries.find? fun e => match e.1 with | text s => s == name | _ => false).map Prod.snd

/-- Write an entry: overwrite the value of an equal key, or append. -/
def putEntry : List (Value × Value) → Value → Value → List (Value × Value)
  | [], k, v => [(k, v)]
  | (k', v') :: rest, k, v =>
    if same k' k then (k', v) :: rest else (k', v') :: putEntry rest k v

/-- The entries with the later of two equal keys winning, at the place of the first. -/
def collapse (entries : List (Value × Value)) : List (Value × Value) :=
  entries.foldl (fun es e => putEntry es e.1 e.2) []

/-! ## Text -/

/-- The name of a value's type in messages. -/
def kind : Value → String
  | null => "NoneType"
  | bool _ => "bool"
  | int _ => "int"
  | real _ => "float"
  | text _ => "str"
  | bytes _ => "bytes"
  | date _ => "date"
  | instant _ => "datetime"
  | tuple _ => "tuple"
  | list _ => "list"
  | set _ => "set"
  | table _ => "dict"

/-- The quote around bytes and the bytes themselves, escaped. -/
def bytesLiteral (bs : List UInt8) : String :=
  let cs := bs.map fun b => Char.ofNat b.toNat
  let q := quoteFor cs
  let escape (c : Char) : String :=
    if 0x7f ≤ c.toNat then "\\x" ++ hexText 2 c.toNat else escapeChar q c
  "b" ++ String.singleton q ++ String.join (cs.map escape) ++ String.singleton q

/-- The literal of a day. -/
def dateLiteral (d : Date) : String :=
  "datetime.date(" ++ ", ".intercalate ([d.year, d.month, d.day].map toString) ++ ")"

/-- The literal of a duration in minutes: whole days, and seconds from zero up. -/
def durationLiteral (minutes : Int) : String :=
  let days := Int.fdiv minutes 1440
  let seconds := Int.fmod minutes 1440 * 60
  let parts := (if days = 0 then [] else ["days=" ++ toString days]) ++
    (if seconds = 0 then [] else ["seconds=" ++ toString seconds])
  "datetime.timedelta(" ++ ", ".intercalate parts ++ ")"

/-- The literal of an offset from universal time, in minutes. -/
def offsetLiteral (minutes : Int) : String :=
  if minutes = 0 then "datetime.timezone.utc"
  else "datetime.timezone(" ++ durationLiteral minutes ++ ")"

/-- The literal of a point of time; seconds and fractions are left out where they are zero. -/
def instantLiteral (t : Instant) : String :=
  let fields := [t.date.year, t.date.month, t.date.day, t.hour, t.minute] ++
    (if t.micro ≠ 0 then [t.second, t.micro] else if t.second ≠ 0 then [t.second] else [])
  let zone := match t.offset with
    | none => []
    | some m => ["tzinfo=" ++ offsetLiteral m]
  "datetime.datetime(" ++ ", ".intercalate (fields.map toString ++ zone) ++ ")"

mutual

/-- The text of a value inside a message. -/
def literal : Value → String
  | null => "None"
  | bool b => if b then "True" else "False"
  | int n => toString n
  | real x => x.text
  | text s => quoted s
  | bytes bs => bytesLiteral bs
  | date d => dateLiteral d
  | instant t => instantLiteral t
  | tuple [x] => "(" ++ literal x ++ ",)"
  | tuple xs => "(" ++ ", ".intercalate (literals xs) ++ ")"
  | list xs => "[" ++ ", ".intercalate (literals xs) ++ "]"
  | set [] => "set()"
  | set xs => "\x7b" ++ ", ".intercalate (literals xs) ++ "\x7d"
  | table es => "\x7b" ++ ", ".intercalate (entryLiterals es) ++ "\x7d"

/-- The texts of several values. -/
def literals : List Value → List String
  | [] => []
  | x :: xs => literal x :: literals xs

/-- The texts of several entries. -/
def entryLiterals : List (Value × Value) → List String
  | [] => []
  | (k, v) :: es => (literal k ++ ": " ++ literal v) :: entryLiterals es

end

end Value

end TreeFeatures
