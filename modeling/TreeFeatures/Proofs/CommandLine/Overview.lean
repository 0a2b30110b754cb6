import Mathlib.Data.List.Forall2
import TreeFeatures.CommandLine.Run
import TreeFeatures.Proofs.Console.Verbatim
import TreeFeatures.Proofs.Settings.Tables

/-!
# The overview of accepted settings

A settings file that `validate` accepts can be loaded, and `resolve` loads it in the same way. What
`resolve` then shows has a row for each language that the settings mention. But names of languages
are texts of any kind, and the console takes them for markup.

* `Names`: the words that name a file on a command line; `run_validate`, `run_resolve`.
* `accepts_iff`: what `validate` accepts.
* `shownRow`, `Rows`: what is shown of a language, and of settings.
* `flagCells?_eq_some_iff`, `flagCells?_eq_none_iff`: the cells of the table.
* **`resolve_shows_iff`**: the result. `resolve_breaks`: a name that is a closing tag.
-/

namespace TreeFeatures

/-! ## Loops that may stop -/

section Loops

variable {α β : Type} {f : α → Option β} {xs : List α}

theorem mapM_eq_some_iff {ys : List β} :
    xs.mapM f = some ys ↔ List.Forall₂ (fun x y => f x = some y) xs ys := by
  induction xs generalizing ys with
  | nil => simp [eq_comm]
  | cons x xs ih =>
    rw [List.mapM_cons, Option.bind_eq_bind, Option.bind_eq_some_iff, List.forall₂_cons_left_iff]
    constructor
    · rintro ⟨y, hy, h⟩
      obtain ⟨rest, hrest, h⟩ := Option.bind_eq_some_iff.mp h
      exact ⟨y, rest, hy, ih.mp hrest, (Option.some.inj h).symm⟩
    · rintro ⟨y, rest, hy, hrest, rfl⟩
      exact ⟨y, hy, Option.bind_eq_some_iff.mpr ⟨rest, ih.mpr hrest, rfl⟩⟩

theorem mapM_eq_none_iff : xs.mapM f = none ↔ ∃ x ∈ xs, f x = none := by
  induction xs with
  | nil => simp
  | cons x xs ih =>
    rw [List.mapM_cons, List.exists_mem_cons_iff, ← ih]
    cases f x with
    | none => simp
    | some y => cases xs.mapM f <;> simp

end Loops

namespace CommandLine

open OptionSpec

variable {m : Machine} {console : Console}

/-! ## Words of a command line -/

/-- A word is no option and no separator: it does not begin with a dash, or is one. -/
def Plain (word : String) : Prop := word.toList.head? = some '-' → word = "-"

instance (word : String) : Decidable (Plain word) :=
  inferInstanceAs (Decidable (word.toList.head? = some '-' → word = "-"))

/-- The words that name a file: its path, unless that looks like options, or two dashes and its
path. -/
inductive Names (path : String) : List String → Prop
  | plain (h : Plain path) : Names path [path]
  | separated : Names path ["--", path]

/-- Long names of options begin with two dashes. -/
def Dashed {ω : Type} (specs : List (OptionSpec ω)) : Prop :=
  ∀ s ∈ specs, s.long.toList.take 2 = ['-', '-']

instance {ω : Type} (specs : List (OptionSpec ω)) : Decidable (Dashed specs) :=
  inferInstanceAs (Decidable (∀ s ∈ specs, _))

theorem Plain.ne_dash_cons {word : String} (h : Plain word) (c : Char) (cs : List Char) :
    word.toList ≠ '-' :: c :: cs := by
  intro hw
  have single := h (by rw [hw]; rfl)
  rw [single] at hw
  cases hw

theorem readWord_of_plain {ω : Type} {specs : List (OptionSpec ω)} {word : String}
    (hspecs : Dashed specs) (hword : Plain word) : readWord specs word = .argument := by
  have h := hword.ne_dash_cons
  have unknown : readLong specs word = none := by
    unfold readLong
    dsimp only
    rw [Option.map_eq_none_iff, List.find?_eq_none]
    intro s hs hlong
    have dashed := hspecs s hs
    rw [beq_iff_eq.mp hlong, String.toList_ofList] at dashed
    have front : ['-', '-'] <+: word.toList :=
      dashed ▸ (List.take_prefix 2 _).trans (List.takeWhile_prefix _)
    obtain ⟨rest, hrest⟩ := front
    exact h '-' rest hrest.symm
  unfold readWord
  rw [unknown]
  dsimp only
  split
  · next hword => exact absurd hword (h _ _)
  · next hword => exact absurd hword (h _ _)
  · next hword => exact absurd hword (h _ _)
  · rfl

theorem readAll_of_names {specs : List (OptionSpec CommandOption)} {path : String}
    {words : List String} (hspecs : Dashed specs) (hseparator : readWord specs "--" = .separator)
    (h : Names path words) : Reading.readAll specs words = .ok ⟨[], [path]⟩ := by
  cases h with
  | plain hpath =>
    unfold Reading.readAll
    rw [readWord_of_plain hspecs hpath]
    rfl
  | separated =>
    unfold Reading.readAll
    rw [hseparator]

/-- A command whose words name a file. -/
theorem withPath_of_names {specs : List (OptionSpec CommandOption)} {path : String}
    {words : List String} (hspecs : Dashed specs) (hseparator : readWord specs "--" = .separator)
    (h : Names path words) (act : String → List String → Outcome) :
    withPath specs words act = act path [] := by
  unfold withPath
  rw [readAll_of_names hspecs hseparator h]
  rfl

/-- A command line that begins with a command. -/
theorem run_command {name : String} {act : List String → Outcome} (words : List String)
    (hname : Plain name) (hact : commandOf? m console name = some act) :
    run m console (name :: words) = { act words with threshold := .warning } := by
  unfold run Reading.readLeading
  rw [readWord_of_plain (by decide) hname]
  have word : Threshold.ofWord "WARNING" = .warning := by decide
  have noLevel : ({ given := [], arguments := name :: words } : Reading GlobalOption).values
      .logLevel = [] := rfl
  dsimp only [runCommand, List.find?_nil]
  rw [hact, noLevel, List.getLast?_nil, Option.getD_none, word]

theorem run_validate {path : String} {words : List String} (h : Names path words) :
    run m console ("validate" :: words) = { validate m console path with threshold := .warning } := by
  rw [run_command words (by decide) rfl, withPath_of_names (by decide) rfl h]

theorem run_resolve {path : String} {words : List String} (h : Names path words) :
    run m console ("resolve" :: words) =
      { withSettings m console (Path.ofString path).toString (showFlags console []) with
        threshold := .warning } := by
  rw [run_command words (by decide) rfl, withPath_of_names (by decide) rfl h]

/-! ## Accepted settings -/

theorem exitCode_say (text : String) : (Outcome.say console 1 text).exitCode = 1 := by
  unfold Outcome.say
  split <;> rfl

/-- A tag that the program itself writes opens and is closed. -/
theorem afterTag_own (styles : Styles) {name : String} (hname : name ∈ ["green", "dim"]) :
    ∃ t, Markup.afterTag styles [] name.toList = some [t] ∧
      Markup.afterTag styles [t] ('/' :: name.toList) = some [] := by
  have known : styles.canonical? name ≠ none :=
    styles.own name (List.mem_append_left ["bold red"] hname)
  obtain ⟨g, hg⟩ := Option.ne_none_iff_exists'.mp known
  -- there is nothing but a name in the tag
  have bare : ∀ name ∈ ["green", "dim"], Markup.nameOf name.toList = name.toList ∧
      Markup.parametersOf? name.toList = none ∧
      Markup.nameOf ('/' :: name.toList) = '/' :: name.toList ∧ name.toList.head? ≠ some '/' ∧
      trimmed name = name ∧ name ≠ "" := by
    decide +kernel
  obtain ⟨opening, parameters, closing, front, word, nonempty⟩ := bare name hname
  refine ⟨⟨g, none⟩, ?_, ?_⟩
  · unfold Markup.afterTag
    rw [opening, parameters]
    split
    · next rest hrest =>
      rw [hrest] at front
      exact absurd rfl front
    · simp [hg, Markup.OpenTag.isStyled]
  · unfold Markup.afterTag
    rw [closing]
    simp [word, Markup.closed?, nonempty, hg, Markup.takeFirst, Markup.OpenTag.isClosable]

/-- A line that begins with a word in green can be shown, if the rest has no bracket in it. -/
theorem render?_ok {styles : Styles} {known : Pictures} {rest : String} (h : '[' ∉ rest.toList) :
    Markup.render? styles known ("[green]OK[/green] " ++ rest) ≠ none := by
  have own : "green" ∈ ["green", "dim"] := by decide
  obtain ⟨t, opens, closes⟩ := afterTag_own styles own
  have untagged : ¬ Markup.Tagged (' ' :: rest.toList) := fun htag => by
    have bracket := htag.mem
    simp at bracket
    exact h bracket
  have pieces : Markup.pieces (rest.toList.length + 18) []
      ("[green]OK[/green] ".toList ++ rest.toList) =
      .tag "green".toList :: .text "OK".toList :: .tag ('/' :: "green".toList) ::
        Markup.pieces (rest.toList.length + 14) [] (' ' :: rest.toList) := rfl
  have length : ("[green]OK[/green] ".toList ++ rest.toList).length = rest.toList.length + 18 := by
    rw [List.length_append, Nat.add_comm]
    rfl
  unfold Markup.render?
  rw [String.toList_append, length, pieces, Markup.pieces_of_not_tagged untagged]
  have last : Markup.plain ((' ' :: rest.toList).reverse ++ []) = [.text (' ' :: rest.toList)] := by
    simp [Markup.plain]
  simp only [last, Markup.join?, opens, closes, Option.map_some]
  simp

theorem bracket_notMem_toString (n : Nat) : '[' ∉ (toString n).toList := by
  intro h
  have digit := Nat.isDigit_of_mem_toDigits (by decide) (Nat.le_refl 10)
    (by simpa [Nat.toString_eq_repr, Nat.repr] using h)
  exact absurd digit (by decide)

/-- The line about accepted settings can be shown, whatever the numbers in it. -/
theorem exitCode_confirm (s : Settings) : (confirm console s).exitCode = 0 := by
  have bracketless : '[' ∉ (toString s.parsers.length ++ (" parsers, " ++
      (toString s.overrides.length ++ " language overrides"))).toList := by
    simp only [String.toList_append, List.mem_append, bracket_notMem_toString, false_or]
    decide
  obtain ⟨line, hline⟩ := Option.ne_none_iff_exists'.mp (render?_ok bracketless)
  simp only [← String.append_assoc] at hline
  unfold confirm Outcome.say
  rw [hline]

/-- Settings are accepted exactly if they can be loaded. -/
theorem withSettings_accepts_iff {path : String} :
    (withSettings m console path (confirm console)).exitCode = 0 ↔
      ∃ s, (Settings.load m (some path)).result = .ok s := by
  dsimp only [withSettings]
  cases (Settings.load m (some path)).result with
  | ok s => exact ⟨fun _ => ⟨s, rfl⟩, fun _ => exitCode_confirm s⟩
  | error f =>
    constructor
    · intro h
      cases f with
      | report r => exact nomatch (exitCode_say _).symm.trans h
      | _ => cases h
    · rintro ⟨s, hs⟩
      cases hs

/-- `validate` accepts a file exactly if it is there and settings can be loaded from it. -/
theorem accepts_iff {path : String} :
    (validate m console path).exitCode = 0 ↔
      m.lookup (Path.ofString path) ≠ .missing ∧
      (∀ errno, m.lookup (Path.ofString path) ≠ .unreachable errno) ∧
      ∃ s, (Settings.load m (some (Path.ofString path).toString)).result = .ok s := by
  rw [← @withSettings_accepts_iff m console]
  unfold validate
  dsimp only
  cases m.lookup (Path.ofString path) with
  | missing => simp [exitCode_say]
  | unreachable errno => simp [Outcome.escape]
  | _ => simp

/-- `resolve` goes by the settings that are loaded. -/
theorem run_resolve_of_loads {path : String} {words : List String} {s : Settings}
    (h : Names path words)
    (hload : (Settings.load m (some (Path.ofString path).toString)).result = .ok s) :
    run m console ("resolve" :: words) = { showFlags console [] s with
      log := (Settings.load m (some (Path.ofString path).toString)).log
      threshold := .warning } := by
  rw [run_resolve h]
  dsimp only [withSettings]
  rw [hload]

/-! ## Rows -/

/-- The row of a language as it is shown, with a text that stands for the language. -/
def shownRow (s : Settings) (language name : String) : List String :=
  name :: (if language ∈ s.overrides.keys then "override" else "global") ::
    Flag.all.map fun flag => if (s.resolve (some language)).get flag then "yes" else "no"

/-- The rows that are shown: one for each language that the settings mention, in their order, with
the text that the console makes of the name. -/
def Rows (console : Console) (s : Settings) (rows : List (List String)) : Prop :=
  List.Forall₂ (fun language row => ∃ name,
    Markup.render? console.styles console.pictures language = some name ∧ row = shownRow s language name)
    s.languages rows

variable {styles : Styles} {known : Pictures}

/-- A word between a tag and the tag that closes it is shown as it is. -/
theorem render?_between {text word tag closing : List Char} {t : Markup.OpenTag}
    (hpieces : Markup.pieces text.length [] text = [.tag tag, .text word, .tag closing])
    (hbracket : text.contains '[' = true) (hopens : Markup.afterTag styles [] tag = some [t])
    (hcloses : Markup.afterTag styles [t] closing = some [])
    (hword : word.all Markup.isOrdinary = true) :
    Markup.render? styles known (String.ofList text) = some (String.ofList word) := by
  have verbatim : Markup.Verbatim known word := .of_ordinary hword
  have same := (Markup.verbatim_iff verbatim.untagged).mpr verbatim
  unfold Markup.render?
  rw [String.toList_ofList, if_pos hbracket, hpieces]
  simp only [Markup.join?, hopens, hcloses, Option.map_some, List.append_nil, same]

theorem render?_flag (b : Bool) :
    Markup.render? styles known (if b then "[green]yes[/green]" else "[dim]no[/dim]") =
      some (if b then "yes" else "no") := by
  cases b with
  | true =>
    have pieces : Markup.pieces 18 [] "[green]yes[/green]".toList =
        [.tag "green".toList, .text "yes".toList, .tag ('/' :: "green".toList)] := by decide
    have own : "green" ∈ ["green", "dim"] := by decide
    obtain ⟨t, opens, closes⟩ := afterTag_own styles own
    exact render?_between pieces (by decide) opens closes (by decide)
  | false =>
    have pieces : Markup.pieces 13 [] "[dim]no[/dim]".toList =
        [.tag "dim".toList, .text "no".toList, .tag ('/' :: "dim".toList)] := by decide
    have own : "dim" ∈ ["green", "dim"] := by decide
    obtain ⟨t, opens, closes⟩ := afterTag_own styles own
    exact render?_between pieces (by decide) opens closes (by decide)

theorem render?_source (b : Bool) :
    Markup.render? styles known (if b then "override" else "global") =
      some (if b then "override" else "global") := by
  cases b <;> rfl

/-- The cells of a language are shown as such, its name aside. -/
theorem mapM_flagRow (s : Settings) (language : String) :
    (flagRow s language).mapM (Markup.render? styles known) =
      (Markup.render? styles known language).map (shownRow s language) := by
  have source : (if s.hasOverride language then "override" else "global") =
      if language ∈ s.overrides.keys then "override" else "global" := by
    simp only [Settings.hasOverride, Assoc.has_iff]
  have flags : (Flag.all.map fun flag => if (s.resolve (some language)).get flag
      then "[green]yes[/green]" else "[dim]no[/dim]").mapM (Markup.render? styles known) =
      some (Flag.all.map fun flag =>
        if (s.resolve (some language)).get flag then "yes" else "no") := by
    rw [mapM_eq_some_iff, List.forall₂_map_left_iff, List.forall₂_map_right_iff, List.forall₂_same]
    exact fun flag _ => render?_flag _
  unfold flagRow shownRow
  rw [List.mapM_cons, List.mapM_cons, render?_source, flags, source]
  cases Markup.render? styles known language <;> rfl

theorem flagCells?_eq_some_iff {s : Settings} {rows : List (List String)} :
    flagCells? console [] s = some rows ↔ Rows console s rows := by
  have cells : ∀ l row, (flagRow s l).mapM (Markup.render? console.styles console.pictures) = some row ↔
      ∃ name, Markup.render? console.styles console.pictures l = some name ∧ row = shownRow s l name := by
    intro l row
    rw [mapM_flagRow, Option.map_eq_some_iff]
    exact exists_congr fun name => and_congr_right fun _ => eq_comm
  unfold flagCells? Rows
  rw [mapM_eq_some_iff, List.forall₂_map_left_iff]
  simp only [cells]
  rfl

theorem flagCells?_eq_none_iff {s : Settings} :
    flagCells? console [] s = none ↔
      ∃ l ∈ s.languages, Markup.render? console.styles console.pictures l = none := by
  unfold flagCells?
  rw [mapM_eq_none_iff]
  simp only [List.mem_map, exists_exists_and_eq_and, mapM_flagRow, Option.map_eq_none_iff]
  rfl

/-- The rows have the names of the languages exactly if these are shown as they are. -/
theorem rows_named_iff {s : Settings} :
    Rows console s (s.languages.map fun l => shownRow s l l) ↔
      ∀ l ∈ s.languages, Markup.Verbatim console.pictures l.toList := by
  unfold Rows
  rw [List.forall₂_map_right_iff, List.forall₂_same]
  refine forall₂_congr fun l _ => ?_
  rw [← Markup.render?_eq_self_iff]
  constructor
  · rintro ⟨name, hname, hrow⟩
    obtain ⟨rfl, -⟩ := List.cons.inj hrow
    exact hname
  · exact fun h => ⟨l, h, rfl⟩

/-! ## The result -/

/-- **What `resolve` shows of accepted settings.** Take any file on any machine, and any console. If
`validate` accepts the file, settings are loaded from it, and `resolve` goes by the same ones.

* They mention the languages of `parsers` and those with an override, each once, in the order of first
  mention.
* If there are rows to show, `resolve` ends with 0 and shows a table of these rows; if not, it ends
  with 1 and shows nothing. There are rows exactly if the console can show the names of all languages.
* The rows have the names as configured exactly if each name is shown as it is.

Rows are the texts that go into the cells. Drawing the table may break or cut a text that does not
fit its column. -/
theorem resolve_shows_iff (m : Machine) (console : Console) {path : String}
    {words words' : List String} (hvalidate : Names path words) (hresolve : Names path words')
    (haccepted : (run m console ("validate" :: words)).exitCode = 0) :
    let resolved := run m console ("resolve" :: words')
    ∃ s, (Settings.load m (some (Path.ofString path).toString)).result = .ok s ∧
      (s.languages.Nodup ∧ (∀ l, l ∈ s.languages ↔ l ∈ s.parsers ∨ l ∈ s.overrides.keys) ∧
        s.languages.Pairwise fun a b => (s.parsers ++ s.overrides.keys).idxOf a <
          (s.parsers ++ s.overrides.keys).idxOf b) ∧
      (∀ rows, Rows console s rows → resolved.exitCode = 0 ∧
        resolved.output = Table.draw console.width tableTitle flagColumns rows) ∧
      ((∀ rows, ¬ Rows console s rows) → resolved.exitCode = 1 ∧ resolved.output = "" ∧
        resolved.escaped = some .markup) ∧
      ((∃ rows, Rows console s rows) ↔
        ∀ l ∈ s.languages, Markup.render? console.styles console.pictures l ≠ none) ∧
      (Rows console s (s.languages.map fun l => shownRow s l l) ↔
        ∀ l ∈ s.languages, Markup.Verbatim console.pictures l.toList) := by
  intro resolved
  rw [run_validate hvalidate] at haccepted
  obtain ⟨-, -, s, hload⟩ := accepts_iff.mp haccepted
  have ended : resolved = _ := run_resolve_of_loads hresolve hload
  refine ⟨s, hload, ⟨nodup_distinct _, fun l => ?_, pairwise_distinct _⟩, fun rows hrows => ?_,
    fun hnone => ?_, ?_, rows_named_iff⟩
  · rw [Settings.languages, mem_distinct, List.mem_append]
  · rw [ended]
    unfold showFlags
    rw [flagCells?_eq_some_iff.mpr hrows]
    dsimp only
    exact ⟨rfl, rfl⟩
  · have stuck : flagCells? console [] s = none :=
      Option.eq_none_iff_forall_ne_some.mpr fun rows h => hnone rows (flagCells?_eq_some_iff.mp h)
    rw [ended]
    unfold showFlags
    rw [stuck]
    dsimp only [Outcome.escape]
    exact ⟨rfl, rfl, rfl⟩
  · simp only [← flagCells?_eq_some_iff, ← Option.ne_none_iff_exists', ne_eq, flagCells?_eq_none_iff]
    simp

/-- A console that knows a picture. -/
def bugConsole : Console where
  width := 200
  pictures := ⟨fun name => if name = "bug".toList then some ['🐛'] else none, fun name p h => by
    split at h
    · cases h
      decide
    · cases h⟩

/-- A machine with a settings file of some text. -/
def machineWith (text : String) : Machine :=
  ⟨[], fun _ => none, fun p =>
    if p.toString = "c.yaml" then .file (text.toList.map fun c => c.toNat.toUInt8) else .missing⟩

/-- Its settings file is accepted if settings can be loaded from it. -/
theorem run_validate_machineWith {text : String} {s : Settings}
    (h : (Settings.load (machineWith text) (some (Path.ofString "c.yaml").toString)).result = .ok s) :
    (run (machineWith text) console ["validate", "c.yaml"]).exitCode = 0 := by
  have same : (Path.ofString "c.yaml").toString = "c.yaml" := by decide +kernel
  have found : (machineWith text).lookup (Path.ofString "c.yaml") =
      .file (text.toList.map fun c => c.toNat.toUInt8) := by
    unfold machineWith
    dsimp only
    rw [if_pos same]
  rw [run_validate (.plain (by decide))]
  dsimp only
  rw [accepts_iff, found]
  exact ⟨nofun, nofun, s, h⟩

/-- A settings file with two languages, one of which has an override. -/
def twoMachine : Machine := machineWith "parsers: [c]\nparser_settings: \x7bd: \x7bfolds: on\x7d\x7d"

/-- The settings in it. -/
def twoSettings : Settings := { parsers := ["c"], overrides := [("d", { folds := true })] }

/-- The names of both languages are shown as they are. -/
theorem resolve_shows_iff_two :
    (run twoMachine bugConsole ["validate", "c.yaml"]).exitCode = 0 ∧
      (run twoMachine bugConsole ["resolve", "--", "c.yaml"]).exitCode = 0 ∧
      (run twoMachine bugConsole ["resolve", "--", "c.yaml"]).output =
        Table.draw 200 tableTitle flagColumns [["c", "global", "no", "no", "no", "no"],
          ["d", "override", "no", "no", "yes", "no"]] := by
  have loaded : (Settings.load twoMachine (some (Path.ofString "c.yaml").toString)).result.toOption =
      some twoSettings := by
    decide +kernel
  have accepted : (run twoMachine bugConsole ["validate", "c.yaml"]).exitCode = 0 :=
    run_validate_machineWith (toOption_eq_some.mp loaded)
  obtain ⟨s, hs, -, shows, -, -, named⟩ := resolve_shows_iff twoMachine bugConsole
    (.plain (by decide)) .separated accepted
  rw [hs] at loaded
  obtain rfl := Option.some.inj loaded
  have ordinary : ∀ l ∈ ["c", "d"], l.toList.all Markup.isOrdinary = true := by decide
  have rows := named.mpr fun l hl => .of_ordinary (ordinary l hl)
  have written : (twoSettings.languages.map fun l => shownRow twoSettings l l) =
      [["c", "global", "no", "no", "no", "no"], ["d", "override", "no", "no", "yes", "no"]] := by
    decide
  rw [written] at rows
  exact ⟨accepted, shows _ rows⟩

/-- A settings file with one language. -/
def machineOf (language : String) : Machine := machineWith ("parsers: ['" ++ language ++ "']")

/-- The table of one language, with a text for its name. -/
def tableOf (name : String) : String :=
  Table.draw 200 tableTitle flagColumns [[name, "global", "no", "no", "no", "no"]]

/-- A file is accepted whose language is named like a closing tag, but `resolve` shows nothing. One is
accepted whose language has tags in its name, but `resolve` shows another name. -/
theorem resolve_breaks :
    ((run (machineOf "[/x]") bugConsole ["validate", "c.yaml"]).exitCode = 0 ∧
      (run (machineOf "[/x]") bugConsole ["resolve", "c.yaml"]).exitCode = 1 ∧
      (run (machineOf "[/x]") bugConsole ["resolve", "c.yaml"]).output = "") ∧
    (run (machineOf "[b]x[/b]") bugConsole ["validate", "c.yaml"]).exitCode = 0 ∧
      (run (machineOf "[b]x[/b]") bugConsole ["resolve", "c.yaml"]).exitCode = 0 ∧
      (run (machineOf "[b]x[/b]") bugConsole ["resolve", "c.yaml"]).output = tableOf "x" ∧
      tableOf "x" ≠ tableOf "[b]x[/b]" := by
  have closing : (Settings.load (machineOf "[/x]")
      (some (Path.ofString "c.yaml").toString)).result.toOption = some { parsers := ["[/x]"] } := by
    decide +kernel
  have stuck : flagCells? bugConsole [] { parsers := ["[/x]"] } = none := by decide +kernel
  have tagged : (Settings.load (machineOf "[b]x[/b]")
      (some (Path.ofString "c.yaml").toString)).result.toOption =
        some { parsers := ["[b]x[/b]"] } := by
    decide +kernel
  have cells : flagCells? bugConsole [] { parsers := ["[b]x[/b]"] } =
      some [["x", "global", "no", "no", "no", "no"]] := by
    decide +kernel
  refine ⟨⟨run_validate_machineWith (toOption_eq_some.mp closing), ?_⟩,
    run_validate_machineWith (toOption_eq_some.mp tagged), ?_⟩
  · rw [run_resolve_of_loads (.plain (by decide)) (toOption_eq_some.mp closing)]
    unfold showFlags
    rw [stuck]
    exact ⟨rfl, rfl⟩
  · rw [run_resolve_of_loads (.plain (by decide)) (toOption_eq_some.mp tagged)]
    unfold showFlags
    rw [cells]
    exact ⟨rfl, rfl, by decide +kernel⟩

end CommandLine

end TreeFeatures
