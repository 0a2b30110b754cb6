import TreeFeatures.Settings.Basic
import TreeFeatures.Settings.Complaint

/-!
# Reading settings from values

`Settings.read` turns a table into settings. Names that it does not know are passed over; the
others are checked in a fixed order: the list of parsers, the four flags, the overrides.

* A flag is a truth value, 0 or 1 as an integer or double, or one of the accepted words in any
  case (`truthWords`).
* No parsers may be written as null, and so may an override without flags.
-/

namespace TreeFeatures

-- Powers are those of the core library, whatever else is imported next to this module.
attribute [local instance (high)] instPowNat

namespace Flag

/-- The words that stand for truth values, in lower case. -/
def truthWords : List (String × Bool) :=
  [("0", false), ("off", false), ("f", false), ("false", false), ("n", false), ("no", false),
    ("1", true), ("on", true), ("t", true), ("true", true), ("y", true), ("yes", true)]

/-- The text in lower case, for the letters of ASCII. -/
def lowered (s : String) : String := String.ofList (s.toList.map Char.toLower)

/-- The truth value that a word stands for. -/
def ofWord (s : String) : Reading Bool :=
  match truthWords.find? fun e => e.1 == lowered s with
  | some (_, b) => ⟨b, []⟩
  | none => .refused false .boolParsing

/-- The text that bytes spell. -/
def textOfBytes? (bs : List UInt8) : Option String := String.fromUTF8? ⟨bs.toArray⟩

/-- The truth value that a value stands for. -/
def readValue : Value → Reading Bool
  | .bool b => ⟨b, []⟩
  | .text s => ofWord s
  | .bytes bs =>
    match textOfBytes? bs with
    | some s => ofWord s
    | none => .refused false .boolParsing
  | .int n =>
    if n = 0 then ⟨false, []⟩
    else if n = 1 then ⟨true, []⟩
    else if -2 ^ (63 : Nat) ≤ n ∧ n < 2 ^ (63 : Nat) then .refused false .boolParsing
    else .refused false .boolType
  | .real x =>
    if x.toInt? = some 0 then ⟨false, []⟩
    else if x.toInt? = some 1 then ⟨true, []⟩
    else .refused false .boolType
  | _ => .refused false .boolType

/-- A switch of a table; it is off if the table does not mention it. -/
def read (entries : List (Value × Value)) (flag : Flag) : Reading Bool :=
  match Value.member? entries flag.name with
  | some v => (readValue v).under (.name flag.name)
  | none => ⟨false, []⟩

end Flag

namespace Flags

/-- The switches of a table. -/
def readTable (entries : List (Value × Value)) : Reading Flags :=
  ⟨ofFun fun flag => (flag.read entries).value,
    Flag.all.flatMap fun flag => (flag.read entries).complaints⟩

/-- Switches are fixed once they are read: nothing can be assigned. -/
def assign (_ : Flags) (name : String) : Reading Unit :=
  Reading.under (.name name) (.refused () .frozen)

/-- The switches of a value, which has to be a table. -/
def read : Value → Reading Flags
  | .table entries => readTable entries
  | _ => .refused off .recordType

end Flags

namespace Settings

/-- A text, or bytes that spell one. -/
def readText : Value → Reading String
  | .text s => ⟨s, []⟩
  | .bytes bs =>
    match Flag.textOfBytes? bs with
    | some s => ⟨s, []⟩
    | none => .refused "" .stringUnicode
  | _ => .refused "" .stringType

/-- The texts of a list, from a position on. -/
def readTexts : Nat → List Value → Reading (List String)
  | _, [] => ⟨[], []⟩
  | i, v :: vs =>
    let first := (readText v).under (.index i)
    let rest := readTexts (i + 1) vs
    ⟨first.value :: rest.value, first.complaints ++ rest.complaints⟩

/-- The managed languages; null stands for none (`_none_parsers`). -/
def readParsers : Option Value → Reading (List String)
  | none | some .null => ⟨[], []⟩
  | some (.list vs) | some (.tuple vs) | some (.set vs) =>
    (readTexts 0 vs).under (.name "parsers")
  | some _ => Reading.under (.name "parsers") (.refused [] .listType)

/-- How a key of the overrides is named in a complaint. -/
def keyPlace : Value → Place
  | .text s => .name s
  | .bool b => .index (if b then 1 else 0)
  | .int n => if -2 ^ (63 : Nat) ≤ n ∧ n < 2 ^ (63 : Nat) then .index n else .name (toString n)
  | v => .name v.literal

/-- An override; null stands for one without flags (`_empty_overrides`). -/
def readOverride : Value → Reading Flags
  | .null => ⟨Flags.off, []⟩
  | v => Flags.read v

/-- The overrides of a table. -/
def readEntries : List (Value × Value) → Reading (Assoc String Flags) → Reading (Assoc String Flags)
  | [], acc => acc
  | (k, v) :: es, acc =>
    let name := ((readText k).under (.name "[key]")).under (keyPlace k)
    let flags := (readOverride v).under (keyPlace k)
    readEntries es
      ⟨acc.value.put name.value flags.value,
        acc.complaints ++ name.complaints ++ flags.complaints⟩

/-- The flags by language. -/
def readOverrides : Option Value → Reading (Assoc String Flags)
  | none => ⟨[], []⟩
  | some (.table es) => (readEntries es ⟨[], []⟩).under (.name "parser_settings")
  | some _ => Reading.under (.name "parser_settings") (.refused [] .tableType)

/-- The settings of a table. -/
def read (entries : List (Value × Value)) : Reading Settings :=
  let parsers := readParsers (Value.member? entries "parsers")
  let flags := Flags.readTable entries
  let overrides := readOverrides (Value.member? entries "parser_settings")
  ⟨⟨parsers.value, flags.value, overrides.value⟩,
    parsers.complaints ++ flags.complaints ++ overrides.complaints⟩

end Settings

end TreeFeatures
