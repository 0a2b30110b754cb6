import TreeFeatures.Proofs.Enablement.Completion
import TreeFeatures.Proofs.Enablement.Evolution
import TreeFeatures.Proofs.Enablement.Waiting

/-!
# Documents of bundled languages

A document that attaches shows features at once, if its filetype is managed and not unavailable and
its language is bundled, unless it is to go through the installer: nothing is known about the
filetype yet, the language is to be installed on demand, and there is an installer. Then it waits for
the install if the loop runs, and otherwise nothing becomes of it. The bundled queries do not serve
in that case.

* `Grounded`: nothing is registered before the settings are known, so a document that attaches with a
  managed filetype does not fail for want of settings.
* `leads_planManaged_bundled`: what is decided for a document of a bundled language.
* `leads_installFor_present`: what installing on demand does while there is an installer.
* `bundled_attached`: the result. `bundled_ignored`: while the loop does not run a document may be
  left alone.
-/

namespace TreeFeatures.Enablement

open Act Install

variable {σ : Type} {s : Surroundings σ} {E : World σ → Prop}

/-! ## Settings before filetypes -/

/-- Nothing is registered before the program is set up and the settings are known. -/
structure Grounded (w : World σ) : Prop where
  unprepared : w.state.initialized = false → w.state.registry = []
  known : w.state.registry ≠ [] → w.state.settings ≠ none

theorem blind_grounded : Blind s otherParts allAreas Grounded where
  log _ _ h := ⟨h.unprepared, h.known⟩
  write p hp w st hst h := by
    cases hst with
    | registry => simp at hp
    | initialized => simp at hp
    | settings => exact ⟨h.unprepared, fun _ => Option.some_ne_none _⟩
    | _ => exact ⟨h.unprepared, h.known⟩
  ask _ _ _ h := ⟨h.unprepared, h.known⟩

/-- A filetype that has an entry was registered. -/
theorem registry_ne_nil {r : Registry} {ft : String} {a : Availability}
    (h : Assoc.get? r ft = some a) : r ≠ [] := by
  rintro rfl
  cases h

/-- Setting an entry where there is one. -/
theorem Grounded.set {w : World σ} (h : Grounded w) {ft : String} {a : Availability}
    (ha : Assoc.get? w.state.registry ft = some a) (b : Availability) :
    Grounded { w with state := { w.state with registry := w.state.registry.set ft b } } := by
  constructor
  · exact fun hi => absurd (h.unprepared hi) (registry_ne_nil ha)
  · exact fun _ => h.known (registry_ne_nil ha)

/-- Setting up asks for the settings first. If that fails, nothing is registered. -/
theorem leads_prepare_grounded :
    Leads Grounded (prepare s) (fun _ => Grounded)
      (fun w => w.state.initialized = true ∧ w.state.registry = []) := by
  let Empty (w : World σ) : Prop := w.state.initialized = true ∧ w.state.registry = []
  let Known (w : World σ) : Prop := w.state.initialized = true ∧ w.state.settings ≠ none
  have blindEmpty : Blind s [.settings] [] Empty := by
    refine Blind.of_state (J := fun st => st.initialized = true ∧ st.registry = [])
      fun p hp st st' hst h => ?_
    cases hst with
    | settings => exact h
    | _ => simp at hp
  have blindKnown : Blind s [.bundled] [.editor] Known := by
    refine Blind.of_state (J := fun st => st.initialized = true ∧ st.settings ≠ none)
      fun p hp st st' hst h => ?_
    cases hst with
    | bundled => exact h
    | _ => simp at hp
  have prepared : Leads Grounded (prepare s)
      (fun fresh w => if fresh then Known w else Grounded w ∧ w.state.initialized = true) Empty :=
    leads_prepare_of blindKnown (fun w hw hi => ⟨rfl, hw.unprepared hi⟩)
      ((leads_settings_known blindEmpty).weaken fun x w hw =>
        ⟨hw.1.1, hw.2 ▸ Option.some_ne_none x⟩) fun _ _ hw => hw
  refine prepared.weaken fun fresh w hw => ?_
  cases fresh with
  | true => exact ⟨fun hi => absurd (hw.1.symm.trans hi) nofun, fun _ => hw.2⟩
  | false => exact hw.1

theorem exec_grounded (x : Step σ) {w : World σ} (hw : Grounded w) : Grounded (exec s x w) := by
  cases x with
  | call b o =>
    refine exec_call_entries blind_grounded (Leads.keeps ?_) (fun _ _ w hw hknown _ => ?_) hw
    · refine leads_prepare_grounded.mono (fun _ hw => hw) (fun _ _ hw => hw) fun w hw => ?_
      exact ⟨fun _ => hw.2, fun hne => absurd hw.2 hne⟩
    · exact hw.set hknown _
  | work j =>
    exact exec_work_entries blind_grounded (fun _ _ hw => ⟨hw.unprepared, hw.known⟩)
      (fun _ _ a w hw hknown _ => hw.set hknown a) hw
  | _ => exact ⟨hw.unprepared, hw.known⟩

theorem grounded_initial {w : World σ} (hw : Initial w) : Grounded w := by
  have registry : w.state.registry = [] := by rw [hw.state]
  exact ⟨fun _ => registry, fun hne => absurd registry hne⟩

/-! ## Planning -/

/-- The documents of a filetype are to go through the installer: nothing is known about the filetype,
the settings have the language installed on demand, and there is an installer. -/
def ViaInstaller (l : String) (known : Availability) (st : State) : Prop :=
  known = .unknown ∧ (∃ x, st.settings = some x ∧ (x.resolve (some l)).autoInstall = true) ∧
    st.gateway.installer = .present

/-- The state is a given one, but for what is known about the installer. -/
def Searched (st : State) (w : World σ) : Prop :=
  ∃ i, w.state = { st with gateway := { st.gateway with installer := i } }

theorem blind_searched {areas : List Area} {st : State} :
    Blind s [.installer] areas (Searched st) := by
  refine Blind.of_state (J := fun st' => ∃ i,
    st' = { st with gateway := { st.gateway with installer := i } }) fun p hp st₁ st₂ hst h => ?_
  obtain ⟨i, rfl⟩ := h
  cases hst with
  | installer _ j => exact ⟨j, rfl⟩
  | _ => simp at hp

/-- What is decided for a filetype of a bundled language, if it is not unavailable. -/
theorem Decision.of_bundled {known : Availability} (hknown : known ≠ .unavailable)
    (ready useInstaller : Bool) :
    (known = .unknown ∧ useInstaller = true →
      Decision.of known ready true useInstaller = .install) ∧
    (¬ (known = .unknown ∧ useInstaller = true) →
      Decision.of known ready true useInstaller = .start ∨
      Decision.of known ready true useInstaller = .fallBack) := by
  cases known with
  | unknown => cases ready <;> cases useInstaller <;> simp [Decision.of]
  | available => simp [Decision.of]
  | unavailable => exact absurd rfl hknown

/-- A plan for a filetype of a bundled language: it is either to be installed or to be started. -/
structure Plan.Bundled (l : String) (known : Availability) (p : Plan) (st : State) : Prop where
  language : p.language = l
  entry : p.known = known
  install : ViaInstaller l known st → p.decision = .install
  start : ¬ ViaInstaller l known st → p.decision = .start ∨ p.decision = .fallBack

theorem leads_planManaged_bundled {st : State} {x : Settings} (hx : st.settings = some x)
    {l : String} (hl : l ∈ st.bundled) {known : Availability} (hknown : known ≠ .unavailable) :
    Leads (Searched st) (planManaged s l known)
      (fun p w => Searched st w ∧ p.Bundled l known w.state) E := by
  have settings : ∀ w : World σ, Searched st w → w.state.settings = some x := by
    rintro w ⟨i, hi⟩
    rw [hi]
    exact hx
  refine Leads.bind (Q := fun flags w => flags = x.resolve (some l) ∧ Searched st w)
    (fun w hw => ?_) fun flags => Leads.assume fun hflags => ?_
  · rw [run_resolve (settings w hw)]
    exact ⟨rfl, hw⟩
  have searching : Blind s [.installer] [.editor, .discovery] (Searched st) := blind_searched
  refine (leads_mayInstall (searching.mono (by simp) (by simp)) flags).bind fun use => ?_
  let Searched' (w : World σ) : Prop :=
    Searched st w ∧ (use = true ↔ flags.autoInstall = true ∧ w.state.gateway.installer = .present)
  refine Leads.bind (Q := fun st' w => st'.bundled.contains l = true ∧ Searched' w)
    (leads_state fun w hw => ⟨?_, hw⟩) fun st' => Leads.assume fun hbundled => ?_
  · obtain ⟨⟨i, hi⟩, -⟩ := hw
    rw [hi]
    simpa using hl
  have blind : Blind s [] [.editor] Searched' :=
    (searching.mono (by simp) (by simp)).and (Blind.of_state (J := fun st' =>
      use = true ↔ flags.autoInstall = true ∧ st'.gateway.installer = .present) (by simp))
  dsimp only
  refine (leads_probe_any blind l known).bind fun ready => leads_pure fun w hw => ?_
  obtain ⟨searched, huse⟩ := hw
  have via : ViaInstaller l known w.state ↔ known = .unknown ∧ use = true := by
    unfold ViaInstaller
    rw [huse, hflags, settings w searched]
    simp
  obtain ⟨install, start⟩ := Decision.of_bundled hknown ready use
  rw [hbundled]
  exact ⟨searched, rfl, rfl, fun h => install (via.mp h), fun h => start (via.not.mp h)⟩

/-! ## Carrying out -/

/-- While there is an installer, a document that has a language installed waits for it if the loop
runs, and otherwise no document waits for it any more. -/
theorem leads_installFor_present {P Q : World σ → Prop} {l : String} (hl : l ≠ "")
    (document : Handle) (filetype : String) (hlog : ∀ w log, Q w → Q { w with log := log })
    (haccept : ∀ w, P w → w.state.loop.isRunning = true →
      Q { w with state :=
        Gateway.accept (w.state.enqueue l ⟨document, filetype⟩) [l] (some .enablement) })
    (hdrop : ∀ w, P w → w.state.loop.isRunning = false →
      Q { w with state := (w.state.enqueue l ⟨document, filetype⟩).dequeue l }) :
    Leads (fun w => P w ∧ w.state.gateway.installer = .present) (installFor s document filetype l)
      (fun _ => Q) E := by
  let Enqueued (v : World σ) : Prop := ∃ w, P w ∧ w.state.gateway.installer = .present ∧
    v = { w with state := w.state.enqueue l ⟨document, filetype⟩ }
  have wanted : Gateway.requested [l] = [l] := Gateway.requested_singleton hl
  have present : Leads Enqueued (Gateway.isPresent s) (fun b v => b = true ∧ Enqueued v) E := by
    intro v hv
    obtain ⟨w, hw, hp, rfl⟩ := id hv
    have there : ({ w with state := w.state.enqueue l ⟨document, filetype⟩ } :
      World σ).state.gateway.installer = .present := hp
    rw [Gateway.run_isPresent there]
    exact ⟨rfl, hv⟩
  refine (leads_update (Q := Enqueued) fun w hw => ⟨w, hw.1, hw.2, rfl⟩).bind fun _ => ?_
  refine Leads.bind (Q := fun r v => (r ≠ none → Q v) ∧
    (r = none → Q { v with state := v.state.dequeue l })) ?_ fun r => ?_
  · refine Gateway.leads_dispatch_by (fun r v log hv => ⟨fun hr => hlog v log (hv.1 hr), fun hr =>
      hlog _ log (hv.2 hr)⟩) (fun he => ?_) present (fun v hv => nomatch hv.1) (fun v hv hr => ?_)
      fun v hv _ hr => ?_
    · rw [wanted] at he
      cases he
    · obtain ⟨-, w, hw, -, rfl⟩ := hv
      exact ⟨fun hn => absurd rfl hn, fun _ => hdrop w hw hr⟩
    · obtain ⟨-, w, hw, -, rfl⟩ := hv
      rw [wanted]
      refine ⟨fun _ => haccept w hw hr, fun hn => ?_⟩
      exact absurd hn (Gateway.acceptedBy_ne_none (List.cons_ne_nil _ _))
  · cases r with
    | none => exact leads_update fun v hv => hv.2 rfl
    | some id => exact leads_pure fun v hv => hv.1 nofun

/-- What becomes of a document that attaches with a filetype of a bundled language, given the state
that it is decided in. -/
structure Attached (document : Handle) (filetype l : String) (known : Availability) (before : State)
    (r : Option Availability) (st : State) : Prop where
  /-- It shows features, unless it is to go through the installer. -/
  shown : ¬ ViaInstaller l known st →
    r = some .available ∧ st.features.isActive document = true ∧
      Assoc.get? st.registry filetype = some .available
  /-- Otherwise nothing is known about the filetype yet, and no features are shown. -/
  undecided : ViaInstaller l known st →
    r = some .unknown ∧ st.features = before.features ∧
      Assoc.get? st.registry filetype = some .unknown
  /-- While the loop runs, it waits for an install that the enablement is to hear about. -/
  waits : ViaInstaller l known st → before.loop.isRunning = true →
    ⟨document, filetype⟩ ∈ st.waitersOf l ∧ .enablement ∈ st.gateway.listeners l ∧
      Assoc.get? st.gateway.pending l ≠ none
  /-- While the loop does not run, it does not wait, unless the language is being installed. -/
  ignored : ViaInstaller l known st → before.loop.isRunning = false →
    Assoc.get? st.gateway.pending l = none → ⟨document, filetype⟩ ∉ st.waitersOf l

variable {st : State} {document : Handle} {filetype l : String} {known : Availability}

/-- A document that is to go through the installer. -/
theorem attached_of_install {w v : World σ} (hw : Searched st w)
    (hknown : Assoc.get? st.registry filetype = some known) (hvia : ViaInstaller l known w.state)
    (hfields : v.state.settings = w.state.settings ∧ v.state.registry = w.state.registry ∧
      v.state.features = w.state.features ∧ v.state.gateway.installer = w.state.gateway.installer)
    (hwaits : st.loop.isRunning = true → ⟨document, filetype⟩ ∈ v.state.waitersOf l ∧
      .enablement ∈ v.state.gateway.listeners l ∧ Assoc.get? v.state.gateway.pending l ≠ none)
    (hignored : st.loop.isRunning = false → ⟨document, filetype⟩ ∉ v.state.waitersOf l) :
    Attached document filetype l known st (some known) v.state := by
  obtain ⟨hsettings, hregistry, hfeatures, hinstaller⟩ := hfields
  obtain ⟨i, hi⟩ := hw
  have via : ViaInstaller l known v.state := by
    unfold ViaInstaller
    rw [hsettings, hinstaller]
    exact hvia
  refine ⟨fun h => absurd via h, fun _ => ⟨?_, ?_, ?_⟩, fun _ => hwaits, fun _ hr _ => hignored hr⟩
  · rw [hvia.1]
  · rw [hfeatures, hi]
  · rw [hregistry, hi, ← hvia.1]
    exact hknown

theorem leads_installFor_bundled (hl : l ≠ "")
    (hknown : Assoc.get? st.registry filetype = some known) :
    Leads (fun w => Searched st w ∧ ViaInstaller l known w.state) (installFor s document filetype l)
      (fun _ w => Attached document filetype l known st (some known) w.state) E := by
  refine (leads_installFor_present (P := fun w => Searched st w ∧ ViaInstaller l known w.state) hl
    document filetype (fun _ _ h => h) (fun w hw hr => ?_) fun w hw hr => ?_).mono
      (fun w hw => ⟨hw, hw.2.2.2⟩) (fun _ _ h => h) fun _ h => h
  · let u : World σ := { w with state := w.state.enqueue l ⟨document, filetype⟩ }
    have sure : (view l u).Enqueued False (view l u) :=
      ⟨List.Subset.refl _, rfl, rfl, rfl, fun h => h.elim⟩
    have joins := accept_joins hl sure
    rw [Gateway.requested_singleton hl] at joins
    refine attached_of_install hw.1 hknown hw.2 ?_ (fun _ => ⟨?_, joins.hears, joins.installs⟩)
      fun hstopped => ?_
    · rw [Gateway.accept_eq]
      refine ⟨rfl, rfl, rfl, ?_⟩
      show ((Gateway.listenAll _ _ _).assign _ _).installer = _
      rw [Gateway.listenAll_eq]
      rfl
    · exact joins.waiters (mem_waitersOf_enqueue.mpr (.inr rfl))
    · obtain ⟨⟨i, hi⟩, -⟩ := hw
      rw [hi] at hr
      exact absurd (hr.symm.trans hstopped) nofun
  · refine attached_of_install hw.1 hknown hw.2 ⟨rfl, rfl, rfl, rfl⟩ (fun hrunning => ?_) fun _ => ?_
    · obtain ⟨⟨i, hi⟩, -⟩ := hw
      rw [hi] at hr
      exact absurd (hr.symm.trans hrunning) nofun
    · rw [waitersOf_dequeue_self]
      exact List.not_mem_nil

theorem leads_startAvailable_bundled (flags : Flags) :
    Leads (fun w => ¬ ViaInstaller l known w.state) (startAvailable s document filetype l flags)
      (fun r w => Attached document filetype l known st r w.state) E := by
  let Entered (w : World σ) : Prop := ¬ ViaInstaller l known w.state ∧
    Assoc.get? w.state.registry filetype = some .available
  let Shown (w : World σ) : Prop := Entered w ∧ w.state.features.isActive document = true
  have overridden : ∀ (w : World σ) t, Entered w →
      Shown (w.onFeatures fun f => f.setOverrides document t) := by
    intro w t hw
    refine ⟨hw, ?_⟩
    show (w.state.features.setOverrides document t).isActive document = true
    rw [Features.isActive_setOverrides, decide_eq_true rfl, Bool.true_or]
  refine (leads_startAvailable_of (K := Entered) (I := Shown) ⟨fun _ _ h => h, by simp,
    fun _ _ _ h => h⟩ (fun _ _ h => h) document (fun w hw => ⟨hw, Assoc.get?_put_self _ _ _⟩)
    (fun w hw => overridden w _ hw) (fun w t hw => overridden w t hw.1) l flags).weaken
      fun r w hw => ?_
  obtain ⟨hr, ⟨hvia, hentry⟩, hactive⟩ := hw
  exact ⟨fun _ => ⟨hr, hactive, hentry⟩, fun h => absurd h hvia, fun h => absurd h hvia,
    fun h => absurd h hvia⟩

/-- Attaching a document of a bundled language, once the program is set up. -/
theorem leads_attachManaged_bundled {x : Settings} (hx : st.settings = some x) (hl : l ≠ "")
    (hbundled : l ∈ st.bundled) (hentry : Assoc.get? st.registry filetype = some known)
    (hknown : known ≠ .unavailable) :
    Leads (fun w => w.state = st) (attachManaged s document filetype l known)
      (fun r w => Attached document filetype l known st r w.state) E := by
  refine Leads.bind ((leads_planManaged_bundled hx hbundled hknown).mono (fun w hw => ?_)
    (fun _ _ h => h) fun _ h => h) fun p => ?_
  · exact ⟨w.state.gateway.installer, by rw [← hw]⟩
  rintro w ⟨searched, rfl, rfl, hinstall, hstart⟩
  by_cases hvia : ViaInstaller p.language p.known w.state
  · simp only [carryOut, hinstall hvia]
    refine (Leads.bind (leads_installFor_bundled hl hentry) fun _ => ?_) w ⟨searched, hvia⟩
    exact leads_pure fun _ h => h
  · rcases hstart hvia with hd | hd
    · simp only [carryOut, hd]
      exact leads_startAvailable_bundled p.flags w hvia
    · simp only [carryOut, hd]
      refine (Leads.bind (Q := fun _ w => ¬ ViaInstaller p.language p.known w.state)
        (leads_note fun _ h => h) fun _ => ?_) w hvia
      exact leads_startAvailable_bundled p.flags

/-- The language that the editor gives for a filetype. -/
theorem run_languageFor {w : World σ} (hl : l ≠ "")
    (h : (s.reply (.languageOf filetype) w.outside).1 = .ok (some l)) :
    (languageFor s filetype).run w = (.ok (some l), afterCall s (.languageOf filetype) w) := by
  unfold languageFor
  rw [run_bind_of_ok _ (run_attempt _ w), run_ask, h]
  have named : (some l).filter (· ≠ "") = some l := by simp [hl]
  show (pure ((some l).filter (· ≠ "")) : Act σ (Option String)).run _ = _
  rw [named]
  rfl

/-- Setting up goes well if a filetype is managed afterwards. -/
theorem run_prepare_of_entry {w : World σ} (hw : Grounded w) {a : Availability}
    (ha : Assoc.get? ((prepare s).run w).2.state.registry filetype = some a) :
    Grounded ((prepare s).run w).2 ∧ ∃ fresh, (prepare s).run w = (.ok fresh, ((prepare s).run w).2) := by
  have prepared := leads_prepare_grounded (s := s) w hw
  rcases h : (prepare s).run w with ⟨f | fresh, v⟩
  · rw [h] at prepared ha
    exact absurd prepared.2 (registry_ne_nil ha)
  · rw [h] at prepared
    exact ⟨prepared, fresh, rfl⟩

/-- Attaching a document, in a world that may have to be set up first: once its filetype is managed
and the editor has named the language, the settings are known and the rest is a matter of both. -/
theorem run_attach_of_entry (document : Handle) {w w₁ : World σ} (hw : Grounded w)
    (hprepared : ((prepare s).run w).2 = w₁)
    (hentry : Assoc.get? w₁.state.registry filetype = some known)
    (hlanguage : (s.reply (.languageOf filetype) w₁.outside).1 = .ok (some l)) (hl : l ≠ "") :
    (∃ x, w₁.state.settings = some x) ∧ (attach s document filetype).run w =
      (attachManaged s document filetype l known).run (afterCall s (.languageOf filetype) w₁) := by
  rw [← hprepared] at hentry
  obtain ⟨grounded, fresh, hok⟩ := run_prepare_of_entry hw hentry
  rw [hprepared] at hentry grounded hok
  refine ⟨Option.ne_none_iff_exists'.mp (grounded.known (registry_ne_nil hentry)), ?_⟩
  exact run_attach_of_named hok document hentry (run_languageFor hl hlanguage)

/-- Attaching a document of a bundled language, in a world that may have to be set up first. -/
theorem attach_bundled {w w₁ : World σ} (hw : Grounded w) (hprepared : ((prepare s).run w).2 = w₁)
    (hentry : Assoc.get? w₁.state.registry filetype = some known) (hknown : known ≠ .unavailable)
    (hlanguage : (s.reply (.languageOf filetype) w₁.outside).1 = .ok (some l)) (hl : l ≠ "")
    (hbundled : l ∈ w₁.state.bundled) :
    ∃ r, ((attach s document filetype).run w).1 = .ok r ∧
      Attached document filetype l known w₁.state r ((attach s document filetype).run w).2.state := by
  obtain ⟨⟨x, hx⟩, rest⟩ := run_attach_of_entry document hw hprepared hentry hlanguage hl
  rw [rest]
  have attached : Leads (fun u : World σ => u.state = w₁.state)
      (attachManaged s document filetype l known)
      (fun r u => Attached document filetype l known w₁.state r u.state) fun _ => False :=
    leads_attachManaged_bundled hx hl hbundled hentry hknown
  exact attached.exists_ok rfl

/-! ## Runs -/

theorem keeps_attach_sound (document : Handle) (filetype : String) :
    Keeps (Sound (fun _ => True) none) (attach s document filetype) := by
  refine keeps_attach_by (blind_sound (by simp) (by simp) (by simp))
    (keeps_prepare (blind_sound (by simp) (by simp) (by simp)))
    (fun language => sound_dispatch trivial _) (fun _ _ _ hw _ _ => hw.congr rfl rfl) document
    filetype

/-- **Documents of bundled languages.** In a world that a run ends in, whether the loop runs or not,
a document is attached with a filetype that is managed and not unavailable (once the program is set
up), and the language of it is bundled. That does not fail. Unless the document is to go through the
installer, it shows features afterwards, and the filetype is available. If it is to go through the
installer, the filetype stays unknown and no features are shown or hidden; then

* while the loop runs, the document waits for an install of the language that the enablement is to
  hear about, and that is in flight if no task was asked to stop;
* while the loop does not run, the document does not wait, unless the language is being installed. -/
theorem bundled_attached {w₀ : World σ} (hw : Initial w₀) {steps : List (Step σ)} {w : World σ}
    (hrun : run s steps w₀ = w) (b : Bool) {w₁ : World σ}
    (hprepared : ((prepare s).run (w.setRunning b)).2 = w₁)
    (hentry : Assoc.get? w₁.state.registry filetype = some known) (hknown : known ≠ .unavailable)
    (hlanguage : (s.reply (.languageOf filetype) w₁.outside).1 = .ok (some l)) (hl : l ≠ "")
    (hbundled : l ∈ w₁.state.bundled) {v : World σ}
    (hv : ((attach s document filetype).run (w.setRunning b)).2 = v) :
    ∃ r, ((attach s document filetype).run (w.setRunning b)).1 = .ok r ∧
      (¬ ViaInstaller l known v.state →
        r = some .available ∧ v.state.features.isActive document = true ∧
          Assoc.get? v.state.registry filetype = some .available) ∧
      (ViaInstaller l known v.state →
        r = some .unknown ∧ v.state.features = w.state.features ∧
          Assoc.get? v.state.registry filetype = some .unknown ∧
          (b = true → ⟨document, filetype⟩ ∈ v.state.waitersOf l ∧
            .enablement ∈ v.state.gateway.listeners l ∧
            ∃ id, Assoc.get? v.state.gateway.pending l = some id ∧
              (NoCancel steps → ∃ t, InFlight v.state id t ∧ l ∈ t.languages)) ∧
          (b = false → Assoc.get? v.state.gateway.pending l = none →
            ⟨document, filetype⟩ ∉ v.state.waitersOf l)) := by
  have grounded : Grounded (run s steps w₀) :=
    run_induction (fun x _ _ => exec_grounded x) (grounded_initial hw)
  rw [hrun] at grounded
  have started : Grounded (w.setRunning b) := ⟨grounded.unprepared, grounded.known⟩
  obtain ⟨r, hr, attached⟩ : ∃ r, ((attach s document filetype).run (w.setRunning b)).1 = .ok r ∧
      Attached document filetype l known w₁.state r v.state :=
    hv ▸ attach_bundled started hprepared hentry hknown hlanguage hl hbundled
  -- setting up changes neither whether the loop runs nor what is shown
  have running : w₁.state.loop.isRunning = b := by
    rw [← hprepared]
    exact keeps_prepare (blind_running (by simp)) (w.setRunning b) rfl
  have features : w₁.state.features = w.state.features := by
    rw [← hprepared]
    refine keeps_prepare (I := fun u => u.state.features = w.state.features)
      (Blind.of_state (J := fun st => st.features = w.state.features) fun p hp st st' hst h => ?_)
      (w.setRunning b) rfl
    cases hst <;> first | exact h | simp at hp
  refine ⟨r, hr, attached.shown, fun hvia => ?_⟩
  obtain ⟨hresult, hfeatures, hunknown⟩ := attached.undecided hvia
  refine ⟨hresult, hfeatures.trans features, hunknown, fun hb => ?_, fun hb => ?_⟩
  · obtain ⟨waits, hears, installs⟩ := attached.waits hvia (running.trans hb)
    obtain ⟨id, hid⟩ := Option.ne_none_iff_exists'.mp installs
    refine ⟨waits, hears, id, hid, fun hc => ?_⟩
    have sound : Sound (fun _ => True) none (w.setRunning b) := by
      rw [← hrun]
      exact ((sound_initial (R := fun _ => True) hw).run hc).congr rfl rfl
    have attachedSound : Sound (fun _ => True) none v := by
      rw [← hv]
      exact keeps_attach_sound document filetype _ sound
    obtain ⟨t, ht, -, hmem⟩ := (attachedSound.state.pending l id).mp hid
    exact ⟨t, ht, hmem⟩
  · exact attached.ignored hvia (running.trans hb)

/-- An editor that comes with the queries of lua and registers no grammar. -/
def bundledEditor : Surroundings Unit where
  reply
    | .bundledPaths, x => (.ok ["queries/lua/highlights.scm"], x)
    | c, x => (grammarless Unit).reply c x
  machine _ := .empty

/-- The world after a document of lua attached first, while the loop runs or not. -/
def bundledWorld (isRunning : Bool) : World Unit :=
  ((attach bundledEditor (.number 1) "lua").run (bareWorld.setRunning isRunning)).2

/-- While the loop runs, a document of lua waits. -/
theorem bundled_attached_waiting :
    ViaInstaller "lua" .unknown (bundledWorld true).state ∧
      ⟨.number 1, "lua"⟩ ∈ (bundledWorld true).state.waitersOf "lua" ∧
      ∃ id t, InFlight (bundledWorld true).state id t ∧ "lua" ∈ t.languages := by
  have initial : Initial bareWorld := ⟨rfl, rfl⟩
  have entry : Assoc.get? ((prepare bundledEditor).run (bareWorld.setRunning true)).2.state.registry
      "lua" = some .unknown := by decide +kernel
  have bundled : "lua" ∈ ((prepare bundledEditor).run (bareWorld.setRunning true)).2.state.bundled := by
    decide +kernel
  have via : ViaInstaller "lua" .unknown (bundledWorld true).state :=
    ⟨rfl, ⟨_, rfl, by decide +kernel⟩, rfl⟩
  have settled : run bundledEditor [] bareWorld = bareWorld := rfl
  obtain ⟨r, -, -, installing⟩ := bundled_attached initial settled true rfl entry nofun rfl
    (by decide) bundled (v := bundledWorld true) rfl
  obtain ⟨-, -, -, waits, -⟩ := installing via
  obtain ⟨waiting, -, id, -, flight⟩ := waits rfl
  obtain ⟨t, ht, hl⟩ := flight fun _ => nofun
  exact ⟨via, waiting, id, t, ht, hl⟩

/-- While the loop does not run, a document of lua is left alone: it shows no features and does not
wait, though the queries of lua are bundled and nothing speaks against the filetype. -/
theorem bundled_ignored :
    let w₁ := ((prepare bundledEditor).run (bareWorld.setRunning false)).2
    Initial bareWorld ∧ Assoc.get? w₁.state.registry "lua" = some .unknown ∧
      (bundledEditor.reply (.languageOf "lua") w₁.outside).1 = .ok (some "lua") ∧
      "lua" ∈ w₁.state.bundled ∧
      (bundledWorld false).state.features.isActive (.number 1) = false ∧
      (bundledWorld false).state.waitersOf "lua" = [] ∧
      Assoc.get? (bundledWorld false).state.registry "lua" = some .unknown := by
  refine ⟨⟨rfl, rfl⟩, by decide +kernel, rfl, by decide +kernel, by decide +kernel,
    by decide +kernel, by decide +kernel⟩

end TreeFeatures.Enablement
