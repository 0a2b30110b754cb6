/-!
# Arguments of a command line

Options are long, `--name` or `--name=value`, or short, `-n`; short options can stand together, and
the value of a short option may follow it directly. After `--` nothing is an option. Options are
taken up to the first argument (`readLeading`) or from everywhere (`readAll`).
-/

namespace TreeFeatures.CommandLine

/-- Why a command line cannot be read. -/
inductive UsageError where
  | unknownOption
  | missingValue
  | unexpectedValue
  | missingArgument
  | extraArgument
  | missingCommand
  | unknownCommand
  deriving DecidableEq

/-- A usage error in words. -/
def UsageError.message : UsageError → String
  | unknownOption => "no such option"
  | missingValue => "an option needs a value"
  | unexpectedValue => "an option takes no value"
  | missingArgument => "the path of a settings file is missing"
  | extraArgument => "there are more arguments than expected"
  | missingCommand => "a command is missing: resolve or validate"
  | unknownCommand => "no such command"

/-- An option. -/
structure OptionSpec (ω : Type) where
  option : ω
  long : String
  short : Option Char := none
  takesValue : Bool := false

/-- An option as it was given; the value is empty for one that takes none. -/
structure Given (ω : Type) where
  option : ω
  value : String
  deriving DecidableEq

/-- What a word of a command line turns out to be. -/
inductive Word (ω : Type) where
  /-- No option begins here or later. -/
  | separator
  | argument
  | options (given : List (Given ω))
  /-- Options, the last of which has its value in the next word. -/
  | wanting (given : List (Given ω)) (last : ω)
  | bad (e : UsageError)

variable {ω : Type}

namespace OptionSpec

/-- The option of a long name, and the value that follows it after an equals sign. -/
def readLong (specs : List (OptionSpec ω)) (word : String) : Option (OptionSpec ω × Option String) :=
  let cs := word.toList
  let name := String.ofList (cs.takeWhile (· ≠ '='))
  let value := match cs.dropWhile (· ≠ '=') with
    | _ :: v => some (String.ofList v)
    | [] => none
  (specs.find? fun s => s.long == name).map fun s => (s, value)

/-- Short options that stand together. -/
def readShort (specs : List (OptionSpec ω)) : List (Given ω) → List Char → Word ω
  | given, [] => .options given
  | given, c :: cs =>
    match specs.find? fun s => s.short == some c with
    | none => .bad .unknownOption
    | some s =>
      if s.takesValue then
        if cs.isEmpty then .wanting given s.option
        else .options (given ++ [⟨s.option, String.ofList cs⟩])
      else readShort specs (given ++ [⟨s.option, ""⟩]) cs

/-- What a word is. -/
def readWord (specs : List (OptionSpec ω)) (word : String) : Word ω :=
  match readLong specs word with
  | some (s, value) =>
    match s.takesValue, value with
    | true, some v => .options [⟨s.option, v⟩]
    | true, none => .wanting [] s.option
    | false, none => .options [⟨s.option, ""⟩]
    | false, some _ => .bad .unexpectedValue
  | none =>
    match word.toList with
    | ['-', '-'] => .separator
    | '-' :: '-' :: _ => .bad .unknownOption
    | '-' :: c :: cs => readShort specs [] (c :: cs)
    | _ => .argument

end OptionSpec

/-- A command line that was read: its options and what remains. -/
structure Reading (ω : Type) where
  given : List (Given ω)
  arguments : List String

namespace Reading

/-- Put options in front. -/
def prepend (gs : List (Given ω)) (r : Reading ω) : Reading ω := { r with given := gs ++ r.given }

/-- Read options up to the first argument. -/
def readLeading (specs : List (OptionSpec ω)) : List String → Except UsageError (Reading ω)
  | [] => .ok ⟨[], []⟩
  | word :: rest =>
    match OptionSpec.readWord specs word with
    | .separator => .ok ⟨[], rest⟩
    | .argument => .ok ⟨[], word :: rest⟩
    | .bad e => .error e
    | .options gs => (readLeading specs rest).map (prepend gs)
    | .wanting gs last =>
      match rest with
      | [] => .error .missingValue
      | v :: rest => (readLeading specs rest).map (prepend (gs ++ [⟨last, v⟩]))

/-- Read options from everywhere. -/
def readAll (specs : List (OptionSpec ω)) : List String → Except UsageError (Reading ω)
  | [] => .ok ⟨[], []⟩
  | word :: rest =>
    match OptionSpec.readWord specs word with
    | .separator => .ok ⟨[], rest⟩
    | .argument =>
      (readAll specs rest).map fun r => { r with arguments := word :: r.arguments }
    | .bad e => .error e
    | .options gs => (readAll specs rest).map (prepend gs)
    | .wanting gs last =>
      match rest with
      | [] => .error .missingValue
      | v :: rest => (readAll specs rest).map (prepend (gs ++ [⟨last, v⟩]))

/-- Whether an option was given. -/
def has [DecidableEq ω] (r : Reading ω) (option : ω) : Bool := r.given.any fun g => g.option = option

/-- The values of an option, in order. -/
def values [DecidableEq ω] (r : Reading ω) (option : ω) : List String :=
  (r.given.filter fun g => g.option = option).map Given.value

end Reading

end TreeFeatures.CommandLine
