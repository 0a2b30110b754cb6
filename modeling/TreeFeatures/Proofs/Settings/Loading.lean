import TreeFeatures.Settings.Load

/-!
# How loading settings ends

Loading ends with settings, with a report on the configuration, or with a fault that is passed on as
it is. Which of them it is depends on what lies at the expanded path (`located`), on the document
there (`Document`), and on the variables of the environment.

* `Gathers`: the explicit entries that are laid over the environment, once nothing went wrong on the
  way to them.
* `Escapes`: the faults that no report is made of, each with the input that it comes from: a home
  directory that is not known, a path that cannot be followed, bytes that are no text, a scalar that
  is not of its type, a name that is no text, a variable that is not JSON. The interpreter's bound on
  nested calls is left out of the readers, and so of this list: a document or a variable nested so
  deeply that it meets the bound ends loading with `RecursionError`, and no report is made of that.
* `load_escapes_iff`: the result. A load that ends with neither settings nor a report has one of these
  faults, and each of them does happen; the path in a report is that of the file if something lies
  there, and else there is none. `load_variable_escapes` is the shortest such run.
-/

namespace TreeFeatures

/-- The fault of making settings that leaves loading as it is, without a report. -/
def BuildFault.fault? : BuildFault → Option Fault
  | .unreadable field => some (.unreadableVariable field)
  | .nameNotText => some .nameNotText
  | .rejected _ => none

/-- The fault is a report. -/
def Fault.IsReport (f : Fault) : Prop := ∃ r, f = .report r

namespace Settings

variable {env : Environment} {m : Machine} {path : Option String}

/-! ## The variables of the environment -/

/-- The variable of a field is to be JSON, and is not. -/
def Garbled (env : Environment) (field : String) : Prop :=
  field ∈ structuredFields ∧ ∃ raw, env.field? field = some raw ∧ Json.read raw = none

/-- The first field of a list whose variable is to be JSON and is not. -/
inductive FirstGarbled (env : Environment) : List String → String → Prop
  | here {field : String} {fields : List String} :
      Garbled env field → FirstGarbled env (field :: fields) field
  | later {field other : String} {fields : List String} :
      ¬ Garbled env other → FirstGarbled env fields field → FirstGarbled env (other :: fields) field

theorem fromVariable_of_garbled {field : String} (h : Garbled env field) :
    fromVariable env field = .error (.unreadable field) := by
  obtain ⟨hmem, raw, hraw, hread⟩ := h
  unfold fromVariable
  simp only [hraw, List.contains_iff_mem.mpr hmem, if_true, hread]

theorem fromVariable_of_not_garbled {field : String} (h : ¬ Garbled env field) :
    ∃ v, fromVariable env field = .ok v := by
  unfold fromVariable
  cases hraw : env.field? field with
  | none => exact ⟨none, rfl⟩
  | some raw =>
    by_cases hmem : structuredFields.contains field
    · simp only [hmem, if_true]
      cases hread : Json.read raw with
      | none => exact absurd ⟨List.contains_iff_mem.mp hmem, raw, hraw, hread⟩ h
      | some v =>
        cases v with
        | null => exact ⟨none, rfl⟩
        | _ => exact ⟨some _, rfl⟩
    · simp only [hmem]
      exact ⟨some (.text raw), rfl⟩

/-- The environment cannot be read exactly if some variable is garbled; the first one is named. -/
theorem fromVariables_error_iff {fields : List String} {e : BuildFault} :
    fromVariables env fields = .error e ↔ ∃ field, FirstGarbled env fields field ∧
      e = .unreadable field := by
  induction fields with
  | nil =>
    refine ⟨nofun, ?_⟩
    rintro ⟨_, h, -⟩
    cases h
  | cons other rest ih =>
    by_cases hg : Garbled env other
    · have first : fromVariables env (other :: rest) = .error (.unreadable other) := by
        rw [fromVariables, fromVariable_of_garbled hg]
        rfl
      rw [first]
      constructor
      · rintro ⟨⟩
        exact ⟨other, .here hg, rfl⟩
      · rintro ⟨field, h, rfl⟩
        cases h with
        | here => rfl
        | later hn => exact absurd hg hn
    · obtain ⟨v, hv⟩ := fromVariable_of_not_garbled hg
      have rest_ : fromVariables env (other :: rest) = .error e ↔
          fromVariables env rest = .error e := by
        rw [fromVariables, hv]
        cases fromVariables env rest with
        | ok entries => exact ⟨nofun, nofun⟩
        | error e' => exact Iff.rfl
      rw [rest_, ih]
      constructor
      · rintro ⟨field, h, rfl⟩
        exact ⟨field, .later hg h, rfl⟩
      · rintro ⟨field, h, rfl⟩
        cases h with
        | here h => exact absurd h hg
        | later _ h => exact ⟨field, h, rfl⟩

/-! ## Making settings -/

/-- Making settings of explicit entries fails without a complaint about a value. -/
inductive BuildEscapes (env : Environment) (entries : List (Value × Value)) : Fault → Prop
  | name : namesAreText entries = false → BuildEscapes env entries .nameNotText
  | garbled {field : String} : namesAreText entries = true →
      FirstGarbled env fieldNames field → BuildEscapes env entries (.unreadableVariable field)

/-- The entries are laid over what the variables give. -/
theorem gather_of_names {entries : List (Value × Value)} (h : namesAreText entries = true) :
    gather env entries = (fromVariables env fieldNames).map fun base =>
      Value.overlayEntries base (canonical entries) := by
  unfold gather
  rw [h]
  cases fromVariables env fieldNames <;> rfl

theorem gather_of_not_names {entries : List (Value × Value)} (h : namesAreText entries = false) :
    gather env entries = .error .nameNotText := by
  unfold gather
  rw [h]
  rfl

theorem build_of_gather {entries merged : List (Value × Value)}
    (h : gather env entries = .ok merged) :
    build env entries = (read merged).accepted?.mapError BuildFault.rejected := by
  unfold build
  rw [h]
  dsimp only [bind, Except.bind]
  cases (read merged).accepted? <;> rfl

theorem build_of_gather_error {entries : List (Value × Value)} {e : BuildFault}
    (h : gather env entries = .error e) : build env entries = .error e := by
  unfold build
  rw [h]
  rfl

/-- Entries that cannot be gathered give such a fault. -/
theorem buildEscapes_of_gather {entries : List (Value × Value)} {e : BuildFault}
    (h : gather env entries = .error e) : ∃ f, e.fault? = some f ∧ BuildEscapes env entries f := by
  cases hnames : namesAreText entries with
  | false =>
    cases (gather_of_not_names hnames).symm.trans h
    exact ⟨_, rfl, .name hnames⟩
  | true =>
    rw [gather_of_names hnames] at h
    cases hv : fromVariables env fieldNames with
    | ok base =>
      rw [hv] at h
      cases h
    | error e' =>
      rw [hv] at h
      cases h
      obtain ⟨field, hfield, rfl⟩ := fromVariables_error_iff.mp hv
      exact ⟨_, rfl, .garbled hnames hfield⟩

/-- With such a fault the entries cannot be gathered. -/
theorem BuildEscapes.gather {entries : List (Value × Value)} {f : Fault}
    (h : BuildEscapes env entries f) :
    ∃ e, Settings.gather env entries = .error e ∧ e.fault? = some f := by
  cases h with
  | name hnames => exact ⟨_, gather_of_not_names hnames, rfl⟩
  | @garbled field hnames hfield =>
    refine ⟨.unreadable field, ?_, rfl⟩
    rw [gather_of_names hnames, fromVariables_error_iff.mpr ⟨field, hfield, rfl⟩]
    rfl

theorem buildFrom_of_gather_error {entries : List (Value × Value)} {e : BuildFault} {f : Fault}
    (h : gather env entries = .error e) (hf : e.fault? = some f) (headline : String)
    (reported : Option String) : buildFrom env entries headline reported = .error f := by
  unfold buildFrom
  rw [build_of_gather_error h]
  cases e with
  | rejected => cases hf
  | _ => exact congrArg _ (Option.some.inj hf)

/-- Making settings with a headline for the report passes these faults on, and reports the rest. -/
theorem buildFrom_error_iff {entries : List (Value × Value)} {headline : String}
    {reported : Option String} {f : Fault} :
    buildFrom env entries headline reported = .error f ∧ ¬ f.IsReport ↔
      BuildEscapes env entries f := by
  constructor
  · rintro ⟨h, hreport⟩
    cases hg : gather env entries with
    | error e =>
      obtain ⟨f', hf', escapes⟩ := buildEscapes_of_gather hg
      cases h.symm.trans (buildFrom_of_gather_error hg hf' headline reported)
      exact escapes
    | ok merged =>
      unfold buildFrom at h
      rw [build_of_gather hg] at h
      cases hr : (read merged).accepted? with
      | ok s =>
        rw [hr] at h
        cases h
      | error cs =>
        rw [hr] at h
        cases h
        exact absurd ⟨_, rfl⟩ hreport
  · intro h
    obtain ⟨e, hg, hf⟩ := h.gather
    refine ⟨buildFrom_of_gather_error hg hf headline reported, ?_⟩
    rintro ⟨r, rfl⟩
    cases h

/-- A report about explicit entries names the path that it was to name. -/
theorem subject_of_buildFrom {entries : List (Value × Value)} {headline : String}
    {reported : Option String} {r : Report}
    (h : buildFrom env entries headline reported = .error (.report r)) :
    r.subject = .configuration reported := by
  unfold buildFrom at h
  split at h
  · cases h
  · cases h
  · cases h
  · cases h
    rfl

/-! ## Finding the file -/

/-- The file at an expanded path is opened, and holds these bytes. -/
def Opens (m : Machine) (path : Option String) (p : String) (bytes : List UInt8) : Prop :=
  located m path = .ok (some (p, .file bytes))

/-- The expanded path at which something lies, be it a file or not. -/
def opened? (m : Machine) (path : Option String) : Option String :=
  match located m path with
  | .ok (some (p, .file _)) | .ok (some (p, .directory)) | .ok (some (p, .unreadable _)) => some p
  | _ => none

/-- What a file denotes. -/
def Document (bytes : List UInt8) (v : Value) : Prop :=
  ∃ text, Utf8.text bytes = .ok text ∧ Yaml.read text = .ok v

theorem Document.parsed {bytes : List UInt8} {v : Value} (h : Document bytes v) (p : String) :
    parseFile p bytes = .ok v := by
  obtain ⟨text, htext, hread⟩ := h
  simp only [parseFile, htext, hread]

/-- The explicit entries that a load lays over the environment. -/
inductive Gathers (m : Machine) (path : Option String) : List (Value × Value) → Prop
  | bare : located m path = .ok none → Gathers m path []
  | missing {p : String} : located m path = .ok (some (p, .missing)) → Gathers m path []
  | empty {p : String} {bytes : List UInt8} : Opens m path p bytes → Document bytes .null →
      Gathers m path []
  | table {p : String} {bytes : List UInt8} {entries : List (Value × Value)} :
      Opens m path p bytes → Document bytes (.table entries) → Gathers m path entries

/-- A load that ends with a fault of which no report is made. Texts that are nested too deeply to be
read are not among them, since `Yaml.read` and `Json.read` have no bound on nesting. -/
inductive Escapes (m : Machine) (path : Option String) : Fault → Prop
  | home {p : String} : chosenPath m.environment path = some p →
      (Path.ofString p).expand? m.homeOf = none → Escapes m path .noHome
  | path {p : String} {errno : Nat} : located m path = .ok (some (p, .unreachable errno)) →
      Escapes m path (.os errno)
  | bytes {p : String} {bs : List UInt8} {f : Utf8.Fault} : Opens m path p bs →
      Utf8.text bs = .error f → Escapes m path (.undecodable f)
  | scalar {p : String} {bs : List UInt8} {text : String} {f : Yaml.Fault} : Opens m path p bs →
      Utf8.text bs = .ok text → Yaml.read text = .error f → f ≠ .malformed →
      Escapes m path (.scalar f)
  | settings {entries : List (Value × Value)} {f : Fault} : Gathers m path entries →
      BuildEscapes m.environment entries f → Escapes m path f

/-! ## The course of a load -/

/-- A file that is opened is read. -/
theorem load_of_opens {p : String} {bytes : List UInt8} (h : Opens m path p bytes) :
    (load m path).result = fromFile m.environment p bytes := by
  rw [load, h]
  unfold loadAt
  dsimp only
  cases fromFile m.environment p bytes <;> rfl

theorem fromFile_of_document {p : String} {bytes : List UInt8} {v : Value} (h : Document bytes v) :
    fromFile env p bytes = fromDocument env p v := by
  unfold fromFile
  rw [h.parsed]
  rfl

/-- A load that has explicit entries makes settings of them, and names the file in a report. -/
theorem Gathers.load {entries : List (Value × Value)} (h : Gathers m path entries) :
    ∃ headline, (load m path).result =
      buildFrom m.environment entries headline (opened? m path) := by
  unfold opened?
  cases h with
  | bare hl =>
    rw [Settings.load, hl]
    exact ⟨_, rfl⟩
  | missing hl =>
    rw [Settings.load, hl]
    exact ⟨_, rfl⟩
  | empty hl hd =>
    rw [load_of_opens hl, fromFile_of_document hd, hl]
    exact ⟨_, rfl⟩
  | table hl hd =>
    rw [load_of_opens hl, fromFile_of_document hd, hl]
    exact ⟨_, rfl⟩

/-- How a load goes: a fault is passed on, or reported, on the way to the explicit entries, or
settings are made of them. -/
inductive Course (m : Machine) (path : Option String) : Except Fault Settings → Prop
  | passed {f : Fault} : Escapes m path f → Course m path (.error f)
  | reported {r : Report} : r.subject = .configuration (opened? m path) →
      Course m path (.error (.report r))
  | made {entries : List (Value × Value)} (headline : String) : Gathers m path entries →
      Course m path (buildFrom m.environment entries headline (opened? m path))

/-- The course of a load that opens a file. -/
theorem course_of_opens {p : String} {bytes : List UInt8} (h : Opens m path p bytes) :
    Course m path (load m path).result := by
  have opened : opened? m path = some p := by
    unfold opened?
    rw [h]
  rw [load_of_opens h]
  cases htext : Utf8.text bytes with
  | error f =>
    have failed : fromFile m.environment p bytes = .error (.undecodable f) := by
      simp only [fromFile, parseFile, htext]
      rfl
    exact failed ▸ .passed (.bytes h htext)
  | ok text =>
    cases hread : Yaml.read text with
    | ok v =>
      have document : Document bytes v := ⟨text, htext, hread⟩
      rw [fromFile_of_document document]
      cases v with
      | null =>
        show Course m path (buildFrom m.environment [] _ (some p))
        exact opened ▸ .made _ (.empty h document)
      | table entries =>
        show Course m path (buildFrom m.environment entries _ (some p))
        exact opened ▸ .made _ (.table h document)
      | _ => exact .reported (congrArg Subject.configuration opened.symm)
    | error f =>
      by_cases hf : f = .malformed
      · subst hf
        obtain ⟨r, failed, named⟩ : ∃ r : Report, fromFile m.environment p bytes =
            .error (.report r) ∧ r.subject = .configuration (some p) := by
          simp only [fromFile, parseFile, htext, hread]
          exact ⟨_, rfl, rfl⟩
        exact failed ▸ .reported (named.trans (congrArg Subject.configuration opened.symm))
      · have failed : fromFile m.environment p bytes = .error (.scalar f) := by
          simp only [fromFile, parseFile, htext, hread]
          cases f with
          | malformed => exact absurd rfl hf
          | _ => rfl
        exact failed ▸ .passed (.scalar h htext hread hf)

/-- Every load takes one of these courses. -/
theorem load_course (m : Machine) (path : Option String) : Course m path (load m path).result := by
  have gathered : Gathers m path [] → Course m path (load m path).result := by
    intro h
    obtain ⟨headline, hload⟩ := h.load
    exact hload ▸ .made headline h
  have unread : ∀ p errno, opened? m path = some p → (load m path).result =
      .error (unreadableFile p errno) → Course m path (load m path).result := by
    intro p errno hopened hload
    exact hload ▸ .reported (congrArg Subject.configuration hopened.symm)
  cases hl : located m path with
  | error f =>
    rw [Settings.load, hl]
    refine .passed ?_
    unfold located at hl
    split at hl
    · cases hl
    · next p hp =>
      split at hl
      · next hexpand =>
        cases hl
        exact .home hp hexpand
      · cases hl
  | ok found =>
    rcases found with _ | ⟨p, found⟩
    · exact gathered (.bare hl)
    · cases found with
      | missing => exact gathered (.missing hl)
      | unreachable errno =>
        rw [Settings.load, hl]
        exact .passed (.path hl)
      | directory =>
        exact unread p FileTree.isDirectory (by rw [opened?, hl]) (by rw [Settings.load, hl]; rfl)
      | unreadable errno =>
        exact unread p errno (by rw [opened?, hl]) (by rw [Settings.load, hl]; rfl)
      | file bytes => exact course_of_opens hl

/-- Each of the faults that are passed on does end the load. -/
theorem Escapes.load {f : Fault} (h : Escapes m path f) :
    (load m path).result = .error f ∧ ¬ f.IsReport := by
  cases h with
  | home hp hexpand =>
    have hl : located m path = .error .noHome := by
      unfold located
      simp only [hp, hexpand]
    rw [Settings.load, hl]
    refine ⟨rfl, ?_⟩
    rintro ⟨r, ⟨⟩⟩
  | path hl =>
    rw [Settings.load, hl]
    refine ⟨rfl, ?_⟩
    rintro ⟨r, ⟨⟩⟩
  | bytes hl htext =>
    rw [load_of_opens hl, fromFile, parseFile, htext]
    refine ⟨rfl, ?_⟩
    rintro ⟨r, ⟨⟩⟩
  | @scalar p bs text f hl htext hread hf =>
    rw [load_of_opens hl, fromFile, parseFile, htext]
    simp only [hread]
    refine ⟨?_, ?_⟩
    · cases f with
      | malformed => exact absurd rfl hf
      | _ => rfl
    · rintro ⟨r, ⟨⟩⟩
  | settings hgathers hbuild =>
    obtain ⟨headline, hload⟩ := hgathers.load
    rw [hload]
    exact buildFrom_error_iff.mpr hbuild

/-- A load that ends with a fault that is no report has met one of these. -/
theorem escapes_of_load {f : Fault} (h : (Settings.load m path).result = .error f)
    (hreport : ¬ f.IsReport) : Escapes m path f := by
  have course := load_course m path
  generalize (Settings.load m path).result = result at course h
  cases course with
  | passed hf =>
    cases h
    exact hf
  | reported =>
    cases h
    exact absurd ⟨_, rfl⟩ hreport
  | made headline hgathers => exact .settings hgathers (buildFrom_error_iff.mp ⟨h, hreport⟩)

/-! ## The result -/

/-- **How loading fails.** For every machine and path,

* loading ends with settings, or with a report on the configuration, unless it meets one of the
  faults of `Escapes`; it meets one exactly if it ends with that fault;
* the path in a report is the expanded one if something lies there, be it a file, a directory or
  something that cannot be read, and there is none if nothing was opened. -/
theorem load_escapes_iff (m : Machine) (path : Option String) :
    (((∃ s, (load m path).result = .ok s) ∨ ∃ r, (load m path).result = .error (.report r) ∧
      r.subject = .configuration (opened? m path)) ↔ ∀ f, ¬ Escapes m path f) ∧
    ∀ f, ((load m path).result = .error f ∧ ¬ f.IsReport) ↔ Escapes m path f := by
  have escapes : ∀ f, ((load m path).result = .error f ∧ ¬ f.IsReport) ↔ Escapes m path f :=
    fun f => ⟨fun h => escapes_of_load h.1 h.2, Escapes.load⟩
  refine ⟨⟨?_, fun h => ?_⟩, escapes⟩
  · rintro (⟨s, hs⟩ | ⟨r, hr, -⟩) f hf
    · exact nomatch hs.symm.trans hf.load.1
    · cases hr.symm.trans hf.load.1
      exact hf.load.2 ⟨r, rfl⟩
  · have course := load_course m path
    generalize hload : (load m path).result = result at course
    cases course with
    | passed hf => exact absurd hf (h _)
    | reported hsubject => exact .inr ⟨_, rfl, hsubject⟩
    | made headline _ =>
      cases hbuild : buildFrom m.environment _ headline (opened? m path) with
      | ok s => exact .inl ⟨s, rfl⟩
      | error f =>
        by_cases hreport : f.IsReport
        · obtain ⟨r, rfl⟩ := hreport
          exact .inr ⟨r, rfl, subject_of_buildFrom hbuild⟩
        · exact absurd ((escapes f).mp ⟨hload.trans hbuild, hreport⟩) (h f)

/-- A machine without files, on which the variable for the list of parsers is a bare word. -/
def bareWord : Machine := ⟨[("TS_ENABLE_PARSERS", "lua")], fun _ => none, fun _ => .missing⟩

/-- A variable that is not JSON is not reported: loading ends with a fault that is no report. -/
theorem load_variable_escapes :
    (load bareWord none).result = .error (.unreadableVariable "parsers") ∧
      ¬ ((∃ s, (load bareWord none).result = .ok s) ∨
        ∃ r, (load bareWord none).result = .error (.report r)) := by
  have garbled : Garbled bareWord.environment "parsers" :=
    ⟨by decide, "lua", by decide +kernel, Option.isNone_iff_eq_none.mp (by decide +kernel)⟩
  have escapes : Escapes bareWord none (.unreadableVariable "parsers") :=
    .settings (.bare (by rfl)) (.garbled rfl (.here garbled))
  have loaded : (load bareWord none).result = .error (.unreadableVariable "parsers") :=
    escapes.load.1
  refine ⟨loaded, ?_⟩
  rw [loaded]
  rintro (⟨s, h⟩ | ⟨r, h⟩)
  · cases h
  · cases h

end Settings

end TreeFeatures
