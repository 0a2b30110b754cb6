import TreeFeatures.Value

/-!
# Writing JSON

`Json.write` is the compact text of a value: ASCII only, other characters escaped by their UTF-16
units. A table writes its text keys; values that JSON does not know are written by their literal.
-/

namespace TreeFeatures.Json

/-- One UTF-16 unit as an escape. -/
def unitEscape (n : Nat) : String := "\\u" ++ hexText 4 n

/-- A character inside a JSON string. -/
def charText (c : Char) : String :=
  if c = '"' then "\\\""
  else if c = '\\' then "\\\\"
  else if 0x20 ≤ c.toNat ∧ c.toNat < 0x7f then String.singleton c
  else if c.toNat < 0x10000 then unitEscape c.toNat
  else
    let n := c.toNat - 0x10000
    unitEscape (0xd800 + n / 0x400) ++ unitEscape (0xdc00 + n % 0x400)

/-- A text between double quotes. -/
def stringText (s : String) : String := "\"" ++ String.join (s.toList.map charText) ++ "\""

/-- A double; the values that no decimal denotes are written as words. -/
def realText (x : Binary64) : String :=
  match x with
  | .infinite s => if s then "-Infinity" else "Infinity"
  | .notANumber => "NaN"
  | x => x.text

mutual

/-- The JSON text of a value. -/
def write : Value → String
  | .null => "null"
  | .bool b => if b then "true" else "false"
  | .int n => toString n
  | .real x => realText x
  | .text s => stringText s
  | .list xs | .tuple xs | .set xs => "[" ++ ",".intercalate (writeAll xs) ++ "]"
  | .table es => "\x7b" ++ ",".intercalate (writeEntries es) ++ "\x7d"
  | v => stringText v.literal

/-- The texts of several values. -/
def writeAll : List Value → List String
  | [] => []
  | x :: xs => write x :: writeAll xs

/-- The texts of several entries. -/
def writeEntries : List (Value × Value) → List String
  | [] => []
  | (.text name, v) :: es => (stringText name ++ ":" ++ write v) :: writeEntries es
  | (k, v) :: es => (stringText k.literal ++ ":" ++ write v) :: writeEntries es

end

end TreeFeatures.Json
