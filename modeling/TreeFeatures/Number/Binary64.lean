/-!
# Double precision numbers, exactly

A finite double is `mantissa · 2 ^ exponent` with a sign. Decimals are rounded into the format with
exact integer arithmetic (`ofDecimal`: to the nearest double, a tie to the even mantissa) and
written back as the shortest decimal that reads as the same double (`shortest`).

* `ofRatio` normalises: the mantissa has 53 bits, or fewer at the least exponent.
* `shortest` tests, for 1 to 17 digits, the two neighbours of the value on that decimal grid
  against the interval of reals that round to it.
* `text` lays the digits out: positional from `10⁻⁴` up to `10¹⁶`, else with an exponent.
-/

namespace TreeFeatures

/-- A double precision number; `finite s m e` is `m · 2 ^ e`, negated if `s`. -/
inductive Binary64 where
  | finite (negative : Bool) (mantissa : Nat) (exponent : Int)
  | infinite (negative : Bool)
  | notANumber
  deriving DecidableEq

namespace Binary64

-- Powers are those of the core library, whatever else is imported next to this module.
attribute [local instance (high)] instPowNat

/-- The quotient rounded to the nearest integer, a half to the even one. -/
def roundHalfEven (num den : Nat) : Nat :=
  let q := num / den
  let r := num % den
  if 2 * r < den then q else if den < 2 * r then q + 1 else q + q % 2

/-- Numerator and denominator of `num / den / base ^ e`. -/
def scaled (base num den : Nat) (e : Int) : Nat × Nat :=
  if 0 ≤ e then (num, den * base ^ e.toNat) else (num * base ^ (-e).toNat, den)

/-- The exponent of the least double above zero. -/
def leastExponent : Int := -1074

/-- The double nearest to `num / den`, for a positive `den`. -/
def ofRatio (negative : Bool) (num den : Nat) : Binary64 :=
  if num = 0 then .finite negative 0 leastExponent
  else
    let guess : Int := (Nat.log2 num : Int) - Nat.log2 den - 52
    let (n, d) := scaled 2 num den guess
    let e := max (if n < d * 2 ^ (52 : Nat) then guess - 1 else guess) leastExponent
    let (n, d) := scaled 2 num den e
    let m := roundHalfEven n d
    let (m, e) := if m = 2 ^ (53 : Nat) then (2 ^ (52 : Nat), e + 1) else (m, e)
    if 971 < e then .infinite negative else .finite negative m e

/-- The double nearest to `digits · 10 ^ exponent`. -/
def ofDecimal (negative : Bool) (digits : Nat) (exponent : Int) : Binary64 :=
  let size : Int := (Nat.toDigits 10 digits).length + exponent
  if digits = 0 then ofRatio negative 0 1
  else if 400 < size then .infinite negative
  else if size < -400 then ofRatio negative 0 1
  else
    let (n, d) := scaled 10 digits 1 (-exponent)
    ofRatio negative n d

/-- The integer that a double is, if it is one. -/
def toInt? : Binary64 → Option Int
  | .finite s m e =>
    let sign : Int := if s then -1 else 1
    if 0 ≤ e then some (sign * (m * 2 ^ e.toNat : Nat))
    else if m % 2 ^ (-e).toNat = 0 then some (sign * (m / 2 ^ (-e).toNat : Nat))
    else none
  | _ => none

/-- Equality of values: zero equals its negative, and nothing equals `notANumber`. -/
def same : Binary64 → Binary64 → Bool
  | .finite s m e, .finite s' m' e' =>
    (m == 0 && m' == 0) || (s == s' && m == m' && e == e')
  | .infinite s, .infinite s' => s == s'
  | _, _ => false

/-- The least `k` with `num / den < 10 ^ k`, for a positive quotient. -/
def magnitude (num den : Nat) : Int :=
  if den ≤ num then (Nat.toDigits 10 (num / den)).length
  else
    let width := (Nat.toDigits 10 (den / num)).length
    if num * 10 ^ (width - 1) = den then 2 - width else 1 - width

/-- Drop the zeros at the end of a decimal. -/
def stripZeros : Nat → Nat → Int → Nat × Int
  | 0, digits, exponent => (digits, exponent)
  | fuel + 1, digits, exponent =>
    if digits ≠ 0 ∧ digits % 10 = 0 then stripZeros fuel (digits / 10) (exponent + 1)
    else (digits, exponent)

/-- Digits and exponent of the shortest decimal that reads back as `mantissa · 2 ^ exponent`;
of several, the nearest. -/
def shortest (mantissa : Nat) (exponent : Int) : Nat × Int :=
  let (un, ud) := scaled 2 1 1 (2 - exponent)
  let value := 4 * mantissa
  let high := value + 2
  let low := if mantissa = 2 ^ (52 : Nat) ∧ leastExponent < exponent then value - 1 else value - 2
  let k := magnitude (value * un) ud
  let closed := mantissa % 2 = 0
  let inside (a b : Nat) : Bool := if closed then a ≤ b else a < b
  let pick (n : Nat) : Option (Nat × Int) :=
    let g := k - n
    let (gn, gd) := scaled 10 1 1 (-g)
    -- everything below is measured in units of `1 / (ud * gd)`
    let q := value * un * gd / (ud * gn)
    let scaled (c : Nat) : Nat := c * gn * ud
    let v := value * un * gd
    let ok (c : Nat) : Bool := inside (low * un * gd) (scaled c) && inside (scaled c) (high * un * gd)
    if ok q && (!ok (q + 1) || v - scaled q ≤ scaled (q + 1) - v) then some (q, g)
    else if ok (q + 1) then some (q + 1, g)
    else none
  match (List.range 17).findSome? (fun n => pick (n + 1)) with
  | some (d, g) => stripZeros 400 d g
  | none => (mantissa, 0)

/-- An exponent with its sign and at least two digits. -/
def exponentText (e : Int) : String :=
  let digits := toString e.natAbs
  (if e < 0 then "-" else "+") ++ (if digits.length < 2 then "0" ++ digits else digits)

/-- Lay out `digits · 10 ^ exponent`: positional from `10⁻⁴` up to `10¹⁶`, else scientific. -/
def layout (digits : Nat) (exponent : Int) : String :=
  let ds := Nat.toDigits 10 digits
  let point : Int := ds.length + exponent
  if -3 ≤ point ∧ point ≤ 16 then
    if point ≤ 0 then "0." ++ String.ofList (List.replicate (-point).toNat '0' ++ ds)
    else if ds.length ≤ point.toNat then
      String.ofList (ds ++ List.replicate (point.toNat - ds.length) '0') ++ ".0"
    else String.ofList (ds.take point.toNat) ++ "." ++ String.ofList (ds.drop point.toNat)
  else
    let rest := ds.drop 1
    String.ofList (ds.take 1) ++ (if rest.isEmpty then "" else "." ++ String.ofList rest) ++ "e" ++
      exponentText (point - 1)

/-- The shortest decimal text of a double. -/
def text : Binary64 → String
  | .finite s m e =>
    (if s then "-" else "") ++
      (if m = 0 then "0.0" else let (d, g) := shortest m e; layout d g)
  | .infinite s => if s then "-inf" else "inf"
  | .notANumber => "nan"

end Binary64

end TreeFeatures
