import TreeFeatures.Json.Reader
import TreeFeatures.Settings.Read

/-!
# Where settings come from

A field can be given explicitly, in a table, and by an environment variable: `TS_ENABLE_` and the
name of the field, in any case. Flags are given to the environment as words, parsers and overrides
as JSON, where null stands for nothing.

`gather` lays the explicit table over the environment: tables are merged member by member
(`Value.overlay`), and everything else that is explicit replaces what the environment says.
`Settings.build` reads the result.
-/

namespace TreeFeatures

namespace Value

/-- The value of the first entry with an equal key. -/
def lookup? (entries : List (Value × Value)) (k : Value) : Option Value :=
  (entries.find? fun e => same e.1 k).map Prod.snd

mutual

/-- The second value laid over the first. -/
def overlay : Value → Value → Value
  | table bs, table es => table (overlayEntries bs es)
  | _, v => v

/-- Entries laid over a table. -/
def overlayEntries : List (Value × Value) → List (Value × Value) → List (Value × Value)
  | bs, [] => bs
  | bs, (k, v) :: es =>
    let v' := match lookup? bs k with
      | some b => overlay b v
      | none => v
    overlayEntries (putEntry bs k v') es

end

end Value

/-- The variables of an environment, in the order in which they were set. -/
abbrev Environment := List (String × String)

/-- Why settings could not be made. -/
inductive BuildFault where
  /-- The variable of this field is not JSON. -/
  | unreadable (field : String)
  /-- A name at the top of the explicit settings is not a text. -/
  | nameNotText
  | rejected (complaints : List Complaint)

namespace Environment

/-- The variable of exactly this name. -/
def get? (env : Environment) (name : String) : Option String :=
  (env.reverse.find? fun e => e.1 == name).map Prod.snd

/-- What the names of the variables for fields begin with, in lower case. -/
def variableStart : String := "ts_enable_"

/-- The variable for a field, whatever the case of its name; of several the last one set. -/
def field? (env : Environment) (field : String) : Option String :=
  (env.reverse.find? fun e => Flag.lowered e.1 == variableStart ++ field).map Prod.snd

end Environment

namespace Settings

/-- The fields of settings, in the order in which they are checked. -/
def fieldNames : List String := "parsers" :: Flag.all.map Flag.name ++ ["parser_settings"]

/-- The fields that the environment gives as JSON. -/
def structuredFields : List String := ["parsers", "parser_settings"]

/-- The value that the environment gives to a field. -/
def fromVariable (env : Environment) (field : String) : Except BuildFault (Option Value) :=
  match env.field? field with
  | none => .ok none
  | some raw =>
    if structuredFields.contains field then
      match Json.read raw with
      | none => .error (.unreadable field)
      | some .null => .ok none
      | some v => .ok (some v)
    else .ok (some (.text raw))

/-- The entries that the environment gives to fields. -/
def fromVariables (env : Environment) : List String → Except BuildFault (List (Value × Value))
  | [] => .ok []
  | field :: fields => do
    let v ← fromVariable env field
    let rest ← fromVariables env fields
    .ok (match v with
      | some v => (.text field, v) :: rest
      | none => rest)

/-- The explicit entry with the name of a field in its own case. -/
def canonicalName (k : Value) : Value :=
  match k with
  | .text s => if fieldNames.contains (Flag.lowered s) then .text (Flag.lowered s) else .text s
  | k => k

/-- Explicit entries under the names of the fields; of several for one field the last counts. -/
def canonical (entries : List (Value × Value)) : List (Value × Value) :=
  Value.collapse (entries.map fun e => (canonicalName e.1, e.2))

/-- Whether every name at the top is a text. -/
def namesAreText (entries : List (Value × Value)) : Bool :=
  entries.all fun e => match e.1 with | .text _ => true | _ => false

/-- The explicit entries laid over the environment. -/
def gather (env : Environment) (explicit : List (Value × Value)) :
    Except BuildFault (List (Value × Value)) :=
  if !namesAreText explicit then .error .nameNotText
  else do
    let base ← fromVariables env fieldNames
    .ok (Value.overlayEntries base (canonical explicit))

/-- The settings that an explicit table and the environment give together: making a
`TSEnableConfig`. -/
def build (env : Environment) (explicit : List (Value × Value)) : Except BuildFault Settings := do
  let entries ← gather env explicit
  match (read entries).accepted? with
  | .ok s => .ok s
  | .error cs => .error (.rejected cs)

end Settings

end TreeFeatures
