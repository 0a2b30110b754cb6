import TreeFeatures.Proofs.Enablement.Evolution
import TreeFeatures.Proofs.Settings.Loading

/-!
# A setup that fails

Setting up first marks the program as set up, and then asks for the settings. Settings that are
rejected count as empty; but loading them may also escape with a fault that is no report, and then
the program stays marked and nothing is registered, for good.

* `InForce`: the settings that setting up goes by. `Unloadable`: there are none, because loading them
  escapes. One of the two is always so (`inForce_or_unloadable`).
* `run_prepare_of_inForce`: what setting up does with settings.
* `run_prepare_of_unloadable`: what it leaves behind without.
* `setup_atomic_iff`: the result. `setup_not_repeated`: a file that is not UTF-8 at the first document,
  and good settings handed over later do not help.
-/

namespace TreeFeatures.Enablement

open Act

variable {σ : Type} {s : Surroundings σ} {w : World σ}

/-! ## The settings to go by -/

/-- What loading the settings ends with in a world. -/
def loading (s : Surroundings σ) (w : World σ) : Logged Settings :=
  Settings.load (s.machine w.outside) none

/-- The settings that setting up goes by: those that are known, else those that are loaded, and none
at all if they are rejected with a report. -/
inductive InForce (s : Surroundings σ) (w : World σ) : Settings → Prop
  | known {x : Settings} : w.state.settings = some x → InForce s w x
  | loaded {x : Settings} : w.state.settings = none → (loading s w).result = .ok x → InForce s w x
  | ignored {r : Report} : w.state.settings = none → (loading s w).result = .error (.report r) →
      InForce s w .empty

/-- No settings are known, and loading them escapes with a fault. -/
def Unloadable (s : Surroundings σ) (w : World σ) (f : Fault) : Prop :=
  w.state.settings = none ∧ Settings.Escapes (s.machine w.outside) none f

theorem Unloadable.loading {f : Fault} (h : Unloadable s w f) :
    (loading s w).result = .error f ∧ ¬ f.IsReport := h.2.load

theorem inForce_or_unloadable (s : Surroundings σ) (w : World σ) :
    (∃ x, InForce s w x) ∨ ∃ f, Unloadable s w f := by
  cases hknown : w.state.settings with
  | some x => exact .inl ⟨x, .known hknown⟩
  | none =>
    have course := Settings.load_course (s.machine w.outside) none
    cases hload : (Settings.load (s.machine w.outside) none).result with
    | ok x => exact .inl ⟨x, .loaded hknown hload⟩
    | error f =>
      by_cases hreport : f.IsReport
      · obtain ⟨r, rfl⟩ := hreport
        exact .inl ⟨_, .ignored hknown hload⟩
      · exact .inr ⟨f, hknown, Settings.escapes_of_load hload hreport⟩

/-- The world once the settings were looked for: what that logged is in the log. -/
def looked (s : Surroundings σ) (w : World σ) : World σ :=
  { w with log := (loading s w).log.reverse ++ w.log }

/-- Settings that are not known are loaded. -/
theorem run_settings_of_none (h : w.state.settings = none) :
    (settings s).run w = (goBy (loading s w).result).run (looked s w) := by
  have found : (machine s).run w = (.ok (s.machine w.outside), w) := rfl
  have logged : (noteAll (loading s w).log).run w = (.ok (), looked s w) := rfl
  unfold settings
  rw [run_bind_of_ok _ (run_state w), h]
  unfold loadSettings
  rw [run_bind_of_ok _ found]
  exact run_bind_of_ok _ logged

/-- With settings in force asking for them gives them, and they are known from then on. -/
theorem run_settings_of_inForce {x : Settings} (h : InForce s w x) :
    ∃ log, (settings s).run w =
      (.ok x, { w with state := { w.state with settings := some x }, log := log }) := by
  cases h with
  | known hx =>
    refine ⟨w.log, (run_settings hx).trans ?_⟩
    rw [← hx]
  | loaded hnone hload =>
    rw [run_settings_of_none hnone, hload]
    exact ⟨_, rfl⟩
  | ignored hnone hload =>
    rw [run_settings_of_none hnone, hload]
    exact ⟨_, rfl⟩

/-- Without, asking for them fails, and leaves but entries of the log behind. -/
theorem run_settings_of_unloadable {f : Fault} (h : Unloadable s w f) :
    (settings s).run w = (.error f, looked s w) := by
  obtain ⟨hload, hreport⟩ := h.loading
  rw [run_settings_of_none h.1, hload]
  cases f with
  | report r => exact absurd ⟨r, rfl⟩ hreport
  | _ => rfl

/-! ## Setting up -/

/-- A world marked as set up. -/
def marked (w : World σ) : World σ := { w with state := { w.state with initialized := true } }

/-- Setting up marks the program, asks for the settings, and goes by them. -/
theorem run_prepare_of_fresh (h : w.state.initialized = false) :
    (prepare s).run w = (settings s >>= fun x => do
      populate s x.parsers
      pure true).run (marked w) := by
  unfold prepare
  rw [run_bind_of_ok _ (run_state w), h]
  rfl

/-- Without settings to go by, setting up fails and changes nothing but the mark and the log. -/
theorem run_prepare_of_unloadable {f : Fault} (hi : w.state.initialized = false)
    (h : Unloadable s w f) : (prepare s).run w = (.error f, marked (looked s w)) := by
  have unloadable : Unloadable s (marked w) f := h
  rw [run_prepare_of_fresh hi, run_bind_of_error _ (run_settings_of_unloadable unloadable)]
  rfl

/-- The languages of the answers are those that were asked about. -/
theorem run_answers (languages : List String) (w : World σ) :
    ∃ (answers : List Registry.Answer) (v : World σ),
      (languages.mapM (answerFor s)).run w = (.ok answers, v) ∧
      answers.map Prod.fst = languages ∧ v.state = w.state := by
  induction languages generalizing w with
  | nil => exact ⟨[], w, rfl, rfl, rfl⟩
  | cons l rest ih =>
    let answer : Registry.Answer := (l, (s.reply (.filetypes l) w.outside).1)
    have asked : (answerFor s l).run w = (.ok answer, afterCall s (.filetypes l) w) := rfl
    obtain ⟨answers, v, hrest, hlanguages, hstate⟩ := ih (afterCall s (.filetypes l) w)
    refine ⟨answer :: answers, v, ?_, congrArg (List.cons l) hlanguages, hstate⟩
    rw [List.mapM_cons, run_bind_of_ok _ asked, run_bind_of_ok _ hrest]
    rfl

/-- The program is set up with settings: the filetypes of their languages were brought into the
registry, as the answers about them say. -/
structure SetUp (x : Settings) (before st : State) : Prop where
  initialized : st.initialized = true
  settings : st.settings = some x
  seeded : ∃ answers : List Registry.Answer, answers.map Prod.fst = x.parsers ∧
    st.registry = (before.registry.seed answers).registry

theorem blind_setUp {x : Settings} {before : State} :
    Blind s [.bundled] [.editor] fun v => SetUp x before v.state := by
  refine Blind.of_state (J := SetUp x before) fun p hp st st' hst h => ?_
  cases hst with
  | bundled => exact ⟨h.initialized, h.settings, h.seeded⟩
  | _ => simp at hp

/-- Seeding with settings that are known sets the program up with them. -/
theorem leads_seed_setUp {x : Settings} {before : State} {E : World σ → Prop} :
    Leads (fun v => v.state.initialized = true ∧ v.state.settings = some x ∧
        v.state.registry = before.registry) (seed s x.parsers)
      (fun _ v => SetUp x before v.state) E := by
  rintro v ⟨hinitialized, hsettings, hregistry⟩
  obtain ⟨answers, u, hrun, hlanguages, hstate⟩ := run_answers (s := s) x.parsers v
  have kept : u.state.registry = before.registry := by rw [hstate, hregistry]
  unfold seed
  rw [run_bind_of_ok _ hrun]
  refine ⟨?_, ?_, answers, hlanguages, ?_⟩
  · exact (congrArg State.initialized hstate).trans hinitialized
  · exact (congrArg State.settings hstate).trans hsettings
  · exact congrArg (fun r : Registry => (r.seed answers).registry) kept

theorem InForce.marked {x : Settings} (h : InForce s w x) : InForce s (marked w) x := by
  cases h with
  | known hx => exact .known hx
  | loaded hnone hload => exact .loaded hnone hload
  | ignored hnone hload => exact .ignored hnone hload

/-- With settings to go by, setting up succeeds, and goes by them. -/
theorem run_prepare_of_inForce {x : Settings} (hi : w.state.initialized = false)
    (h : InForce s w x) :
    ((prepare s).run w).1 = .ok true ∧ SetUp x w.state ((prepare s).run w).2.state := by
  obtain ⟨log, hsettings⟩ := run_settings_of_inForce h.marked
  rw [run_prepare_of_fresh hi, run_bind_of_ok _ hsettings]
  have populated : Leads (fun v : World σ => v.state.initialized = true ∧
      v.state.settings = some x ∧ v.state.registry = w.state.registry) (populate s x.parsers)
      (fun _ v => SetUp x w.state v.state) fun _ => False :=
    leads_populate blind_setUp leads_seed_setUp
  obtain ⟨fresh, hok, rfl, setUp⟩ := (populated.bind (R := fun fresh v => fresh = true ∧
      SetUp x w.state v.state) fun _ => leads_pure fun _ hv => ⟨rfl, hv⟩).exists_ok
    (w := { marked w with state := { (marked w).state with settings := some x }, log := log })
    ⟨rfl, rfl, rfl⟩
  exact ⟨hok, setUp⟩

/-! ## Operations that set up -/

/-- What sets up first fails with it, and in the same world. -/
theorem fails_with_prepare {f : Fault} {v : World σ} (h : (prepare s).run w = (.error f, v)) :
    (∀ document language flags, (Controller.start s document language flags).run w = (.error f, v)) ∧
      (Controller.installAll s).run w = (.error f, v) ∧
      ∀ document filetype, (attach s document filetype).run w = (.error f, v) := by
  refine ⟨fun document language flags => ?_, ?_, fun document filetype => ?_⟩
  · exact run_bind_of_error _ h
  · exact run_bind_of_error _ h
  · exact run_attach_of_unprepared h document filetype

/-! ## Nothing is registered any more -/

/-- The program is marked as set up, and nothing is registered. -/
def Barren (w : World σ) : Prop := w.state.initialized = true ∧ w.state.registry = []

theorem run_barren {steps : List (Step σ)} (h : Barren w) : Barren (run s steps w) := by
  have since : OnRegistry (Since Availability.Advances []) (run s steps w) :=
    run_induction (fun x _ _ => exec_advances x) ⟨h.1, h.2 ▸ .refl .stay _⟩
  exact ⟨since.1, List.map_eq_nil_iff.mp since.2.keys⟩

/-- Then no document is attached, of whatever filetype. -/
theorem run_attach_of_barren (h : Barren w) (document : Handle) (filetype : String) :
    (attach s document filetype).run w = (.ok none, w) := by
  refine run_attach_of_unmanaged (run_prepare_of_initialized h.1) document ?_
  rw [h.2]
  rfl

/-! ## The result -/

/-- **A setup that fails.** Take any world that a run reaches and in which the program is not set up.

* Setting up fails exactly if no settings are known and loading them escapes with a fault that is no
  report, and it fails with that fault. So it is atomic, leaving the program not set up where it
  fails, exactly if there is no such fault.
* If it fails, so does whatever sets up first. Registry, bundled languages and settings are as before,
  but the program counts as set up: in every later run, whatever settings are handed over, setting up
  does nothing, nothing is registered, and no document is attached.
* If it does not fail, there are settings in force, and their languages are seeded. -/
theorem setup_atomic_iff {w₀ : World σ} (hw : Initial w₀) {steps : List (Step σ)} {w : World σ}
    (hrun : run s steps w₀ = w) (hi : w.state.initialized = false) :
    (∀ f, ((prepare s).run w).1 = .error f ↔ Unloadable s w f) ∧
    (((∃ f, ((prepare s).run w).1 = .error f) →
      ((prepare s).run w).2.state.initialized = false) ↔ ∀ f, ¬ Unloadable s w f) ∧
    (∀ f, Unloadable s w f → ∃ v, (prepare s).run w = (.error f, v) ∧
      v.state = { w.state with initialized := true } ∧
      ((∀ document language flags,
          (Controller.start s document language flags).run w = (.error f, v)) ∧
        (Controller.installAll s).run w = (.error f, v) ∧
        ∀ document filetype, (attach s document filetype).run w = (.error f, v)) ∧
      ∀ more u, run s more v = u → u.state.initialized = true ∧ u.state.registry = [] ∧
        (prepare s).run u = (.ok false, u) ∧
        ∀ document filetype, (attach s document filetype).run u = (.ok none, u)) ∧
    ((∀ f, ¬ Unloadable s w f) → ∃ x, InForce s w x ∧ ((prepare s).run w).1 = .ok true ∧
      SetUp x w.state ((prepare s).run w).2.state) := by
  have registry : w.state.registry = [] := by
    have unprepared : OnRegistry Unprepared w := by
      rw [← hrun]
      refine run_induction (fun x _ _ => exec_unprepared x) fun _ => ?_
      rw [hw.state]
    exact unprepared hi
  have fails : ∀ f, ((prepare s).run w).1 = .error f ↔ Unloadable s w f := by
    refine fun f => ⟨fun hf => ?_, fun h => by rw [run_prepare_of_unloadable hi h]⟩
    rcases inForce_or_unloadable s w with ⟨x, hx⟩ | ⟨f', hf'⟩
    · exact nomatch (run_prepare_of_inForce hi hx).1.symm.trans hf
    · rw [run_prepare_of_unloadable hi hf'] at hf
      cases hf
      exact hf'
  refine ⟨fails, ⟨fun h f hf => ?_, fun h ⟨f, hf⟩ => ?_⟩, fun f hf => ?_, fun h => ?_⟩
  · have marked := h ⟨f, (fails f).mpr hf⟩
    rw [run_prepare_of_unloadable hi hf] at marked
    cases marked
  · exact absurd ((fails f).mp hf) (h f)
  · have failed := run_prepare_of_unloadable hi hf
    refine ⟨_, failed, rfl, fails_with_prepare failed, ?_⟩
    rintro more u rfl
    have barren : Barren (run s more (marked (looked s w))) := run_barren ⟨rfl, registry⟩
    exact ⟨barren.1, barren.2, run_prepare_of_initialized barren.1, run_attach_of_barren barren⟩
  · rcases inForce_or_unloadable s w with ⟨x, hx⟩ | ⟨f, hf⟩
    · exact ⟨x, hx, run_prepare_of_inForce hi hx⟩
    · exact absurd hf (h f)

/-- An editor that knows the filetypes of languages, on a machine whose settings file is no text. -/
def brokenFile : Surroundings Unit where
  reply
    | .filetypes language, x => (.ok [language], x)
    | .bundledPaths, x => (.ok [], x)
    | c, x => (Surroundings.outOfReach Unit).reply c x
  machine _ := ⟨[("TS_ENABLE_CONFIG", "c.yaml")], fun _ => none, fun _ => .file [0xff]⟩

/-- Nothing was done yet. -/
def freshWorld : World Unit := .fresh () {}

/-- Settings under which lua is managed. -/
def luaSettings : Value := .table [(.text "parsers", .list [.text "lua"])]

/-- The byte of the settings file that is in the way. -/
def badByte : Utf8.Fault := ⟨0, [0xff], .badStart⟩

theorem unloadable_brokenFile {w : World Unit} (h : w.state.settings = none) :
    Unloadable brokenFile w (.undecodable badByte) := by
  have opens : Settings.Opens (brokenFile.machine w.outside) none "c.yaml" [0xff] := by rfl
  exact ⟨h, .bytes opens rfl⟩

/-- The settings file is not UTF-8 when a document is to be started. The settings that are handed over
afterwards are in force, but nothing is registered any more. -/
theorem setup_atomic_iff_broken :
    let w := run brokenFile [.call true .detach] freshWorld
    ∃ v, (Controller.start brokenFile (some (.number 1)) (some "lua") none).run w =
        (.error (.undecodable badByte), v) ∧
      v.state = { w.state with initialized := true } ∧
      (run brokenFile [.call true (.setup luaSettings)] v).state.registry = [] := by
  intro w
  have fresh : Initial freshWorld := ⟨rfl, rfl⟩
  have detached : run brokenFile [.call true .detach] freshWorld = w := rfl
  obtain ⟨-, -, broken, -⟩ := setup_atomic_iff fresh detached rfl
  obtain ⟨v, -, hstate, ⟨hstart, -, -⟩, later⟩ := broken _ (unloadable_brokenFile rfl)
  exact ⟨v, hstart _ _ _, hstate, (later _ _ rfl).2.1⟩

/-- The settings file is not UTF-8 when the program is set up. Then settings under which lua is managed
are handed over, and they are in force; but setting up again does nothing, and lua is not managed. -/
theorem setup_not_repeated :
    let v := ((prepare brokenFile).run freshWorld).2
    let u := run brokenFile [.call true (.setup luaSettings)] v
    (∃ f, ((prepare brokenFile).run freshWorld).1 = .error f) ∧ v.state.initialized = true ∧
      u.state.settings = some { parsers := ["lua"] } ∧
      ((prepare brokenFile).run u).1 = .ok false ∧
      ((prepare brokenFile).run u).2.state.registry = [] := by
  intro v u
  have failed := run_prepare_of_unloadable rfl (unloadable_brokenFile (w := freshWorld) rfl)
  have barren : Barren u := ⟨by decide +kernel, by decide +kernel⟩
  have again := run_prepare_of_initialized (s := brokenFile) barren.1
  refine ⟨⟨_, congrArg Prod.fst failed⟩, by decide +kernel, by decide +kernel, ?_, ?_⟩
  · exact congrArg Prod.fst again
  · exact (congrArg (fun r => r.2.state.registry) again).trans barren.2

end TreeFeatures.Enablement
