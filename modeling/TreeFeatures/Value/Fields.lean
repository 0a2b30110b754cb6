import TreeFeatures.Value

/-!
# Parts of values

Reading the parts of a value that has the shape of a record, and making such values. A part that
is missing or of another shape counts as absent or empty.
-/

namespace TreeFeatures.Value

/-- A field of a table. -/
def field? (v : Value) (name : String) : Option Value :=
  match v with
  | table es => member? es name
  | _ => none

/-- A field that is neither missing nor null. -/
def given? (v : Value) (name : String) : Option Value :=
  match v.field? name with
  | some null => none
  | r => r

/-- A field, or null. -/
def part (v : Value) (name : String) : Value := (v.field? name).getD null

/-- The text that a value is. -/
def text? : Value → Option String
  | text s => some s
  | _ => none

/-- The text in a field. -/
def textAt? (v : Value) (name : String) : Option String := (v.field? name).bind text?

/-- The text in a field, or the empty one. -/
def textAt (v : Value) (name : String) : String := (v.textAt? name).getD ""

/-- The number in a field. -/
def numberAt? (v : Value) (name : String) : Option Nat :=
  match v.field? name with
  | some (int n) => some n.toNat
  | _ => none

/-- The truth value in a field. -/
def flagAt (v : Value) (name : String) (otherwise : Bool) : Bool :=
  match v.field? name with
  | some (bool b) => b
  | _ => otherwise

/-- The elements of a list. -/
def items : Value → List Value
  | list xs => xs
  | _ => []

/-- The texts of a list. -/
def texts (v : Value) : List String := v.items.filterMap text?

/-- The texts of a list, with the empty one for what is no text; or the characters of a text. -/
def pieces : Value → List String
  | text s => s.toList.map String.singleton
  | v => v.items.map fun x => x.text?.getD ""

/-- The pairs of a list. -/
def pairs (v : Value) : List (Value × Value) :=
  v.items.filterMap fun p => match p.items with | [a, b] => some (a, b) | _ => none

/-- The entries of a table whose keys are texts. -/
def entries : Value → List (String × Value)
  | table es => es.filterMap fun e => e.1.text?.map fun k => (k, e.2)
  | _ => []

/-- A table with given names. -/
def record (es : List (String × Value)) : Value := table (es.map fun e => (text e.1, e.2))

/-- A list of texts. -/
def ofTexts (xs : List String) : Value := list (xs.map text)

/-- A value, or null. -/
def ofOption {α : Type} (f : α → Value) : Option α → Value
  | some a => f a
  | none => null

end TreeFeatures.Value
