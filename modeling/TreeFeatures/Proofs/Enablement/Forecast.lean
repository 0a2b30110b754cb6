import TreeFeatures.Proofs.Enablement.Bundled
import TreeFeatures.Proofs.Features.Foreseen

/-!
# Foreseeing what is done for a document

While the answers of the surroundings depend on the call only, the plan for a document is a function
of the state: of its settings, bundled languages and the entry of the filetype. The installer is
looked for when it is first needed, so whether there is one may be found out by one event or another.

* `Gateway.Finds`: what looking for an installer will find. `exists_finds`: that this is settled.
* `Answers.plan` is the plan; `plan_congr` says what it depends on, and `plan_of_available` that it
  stays the same when the filetype becomes available by it.
* `leads_attach_forecast`: attaching makes this plan and carries it out.
* `State.install` is what having a language installed for a document does to the state, while there
  is an installer.
* `exec_tidy`: in worlds that runs end in, records stand where they belong; `Sane` is all that has to
  be known of these worlds.
* `run_filetypeEvent`, `exec_event`: an event attaches the document, while this happens by itself.
-/

namespace TreeFeatures

open Act

variable {σ : Type} {s : Surroundings σ} {K : σ → Prop} {a : Answers}
  {value : σ → Slot → Value} {lit : σ → Handle → Option String} {P Q E : World σ → Prop}

/-! ## Looking for an installer -/

/-- The worlds from which installers are looked for alike: the same is known about the installer, and
the answers of the surroundings do not change. -/
def Seek (K : σ → Prop) (w v : World σ) : Prop :=
  (K w.outside ∧ K v.outside) ∧ w.state.gateway.installer = v.state.gateway.installer

theorem unlogged_seek : Unlogged (Seek (σ := σ) K) := fun _ _ _ _ h => h

section Seek

variable (hK : Predictable s K a value lit)

include hK

theorem alike_ask_foreseen {c : Call} (hc : c.Foreseen) : Alike (Seek K) (ask s c) :=
  alike_ask fun _ _ h =>
    ⟨(hK.answers c hc _ h.1.1).trans (hK.answers c hc _ h.1.2).symm,
      ⟨hK.stays c _ h.1.1, hK.stays c _ h.1.2⟩, h.2⟩

theorem Discovery.alike_firstOf (wanted : Option String) (index : Nat) (names : List String) :
    Alike (Seek K) (firstOf s wanted index names) := by
  induction names generalizing index with
  | nil => exact alike_pure
  | cons name names ih =>
    refine Alike.ite (Alike.bind ?_ fun r => ?_) (ih (index + 1))
    · exact ((alike_ask_foreseen hK (c := .loadEntryPoint index name) trivial).bind fun _ =>
        alike_ask_foreseen hK (c := .makeInstaller index name) trivial).attempt
    · rcases r with f | v
      · exact (alike_note unlogged_seek).bind fun _ => ih (index + 1)
      · exact (alike_note unlogged_seek).bind fun _ => alike_pure

theorem Discovery.alike_find (search : Search) : Alike (Seek K) (find s search) := by
  cases search with
  | configured => exact alike_ask_foreseen hK (c := .findInstaller) trivial
  | registered =>
    refine Alike.bind ?_ fun _ => alike_pure
    refine (alike_ask_foreseen hK (c := .entryPoints group) trivial).attempt.bind fun r => ?_
    rcases r with f | names
    · exact (alike_note unlogged_seek).bind fun _ => alike_pure
    · exact alike_firstOf hK none 0 names

theorem Gateway.alike_isPresent : Alike (Seek K) (isPresent s) := by
  have remembered : ∀ i, Alike (Seek (σ := σ) K) (remember i) := fun i =>
    alike_update fun _ _ h => ⟨h.1, rfl⟩
  refine alike_state (fun _ _ h => by rw [h.2]) fun st => ?_
  cases st.gateway.installer with
  | present => exact alike_pure
  | missing r => exact alike_pure
  | unsought search =>
    refine (Discovery.alike_find hK search).attempt.bind fun r => ?_
    rcases r with f | (_ | _)
    · exact (alike_note unlogged_seek).bind fun _ =>
        (remembered _).bind fun _ => (alike_note unlogged_seek).bind fun _ => alike_pure
    · exact (remembered _).bind fun _ => (alike_note unlogged_seek).bind fun _ => alike_pure
    · exact (remembered _).bind fun _ => alike_pure

end Seek

namespace Gateway

/-- What looking for an installer will find. -/
def Finds (s : Surroundings σ) (K : σ → Prop) (b : Bool) (i : Installer) : Prop :=
  ∀ w, K w.outside → w.state.gateway.installer = i → ((isPresent s).run w).1 = .ok b

variable {b : Bool} {i : Installer}

theorem Sought.finds (h : Sought b i) : Finds s K b i := by
  rintro w - rfl
  rw [run_isPresent_sought h]

/-- It is settled what looking for an installer will find. -/
theorem exists_finds (hK : Predictable s K a value lit) {w : World σ} (hw : K w.outside) :
    ∃ b, Finds s K b w.state.gateway.installer := by
  obtain ⟨b, hb, -⟩ := (leads_isPresent (s := s) (E := fun _ => False) .always).exists_ok
    (w := w) trivial
  exact ⟨b, fun v hv hi => ((alike_isPresent hK v w ⟨⟨hv, hw⟩, hi⟩).1).trans hb⟩

/-- Looking for an installer finds what was foreseen. -/
theorem leads_isPresent_finds (hP : Blind s [.installer] [.discovery] P)
    (hsteady : ∀ w, P w → K w.outside) :
    Leads (fun w => P w ∧ Finds s K b w.state.gateway.installer) (isPresent s)
      (fun r w => r = b ∧ P w ∧ Sought b w.state.gateway.installer) E := by
  intro w hw
  have sought := leads_isPresent_sought (E := E) hP w hw.1
  have found := hw.2 w (hsteady w hw.1) rfl
  rcases hrun : (isPresent s).run w with ⟨f | r, w'⟩
  · rw [hrun] at found
    cases found
  · rw [hrun] at found sought
    obtain rfl := Except.ok.inj found
    exact ⟨rfl, sought⟩

end Gateway

/-! ## The plan -/

namespace Answers

open Enablement

/-- The language of a filetype. -/
def named (a : Answers) (filetype : String) : Option String :=
  match a (.languageOf filetype) with
  | .ok (language : Option String) => language.filter (· ≠ "")
  | .error _ => none

/-- Whether the grammar of a language is registered. -/
def registers (a : Answers) (language : String) : Bool :=
  match a (.addLanguage language) with
  | .ok (.bool b) => b
  | _ => false

/-- The plan for the documents of a filetype. -/
def plan (a : Answers) (present : Bool) (st : State) (filetype : String) : Option Plan :=
  match Assoc.get? st.registry filetype, st.settings, a.named filetype with
  | some known, some x, some l =>
    some ⟨l, x.resolve (some l), known, Decision.of known
      (if known = .unknown then a.registers l else false) (st.bundled.contains l)
      ((x.resolve (some l)).autoInstall && present)⟩
  | _, _, _ => none

/-- What is found out about a filetype. -/
def inquiry (a : Answers) (st : State) (filetype : String) : Option Inquiry :=
  match Assoc.get? st.registry filetype, st.settings, a.named filetype with
  | some known, some x, some l => some ⟨known, l, x.resolve (some l)⟩
  | _, _, _ => none

/-- What is decided then. -/
def decision (a : Answers) (present : Bool) (st : State) (q : Inquiry) : Plan :=
  ⟨q.language, q.flags, q.known, Decision.of q.known
    (if q.known = .unknown then a.registers q.language else false) (st.bundled.contains q.language)
    (q.flags.autoInstall && present)⟩

/-- The plan follows from what is found out. -/
theorem plan_eq_map (a : Answers) (present : Bool) (st : State) (filetype : String) :
    a.plan present st filetype = (a.inquiry st filetype).map (a.decision present st) := by
  unfold plan inquiry
  split <;> simp_all [decision]

end Answers

namespace Enablement

/-- A plan has the features of documents shown. -/
def Plan.Shows (p : Plan) : Prop := p.decision = .start ∨ p.decision = .fallBack

variable {present : Bool} {st st' : State} {filetype : String} {p : Plan}

/-- Where a plan comes from. -/
theorem mem_plan : p ∈ a.plan present st filetype ↔
    ∃ known x l, Assoc.get? st.registry filetype = some known ∧ st.settings = some x ∧
      a.named filetype = some l ∧
      p = ⟨l, x.resolve (some l), known, Decision.of known
        (if known = .unknown then a.registers l else false) (st.bundled.contains l)
        ((x.resolve (some l)).autoInstall && present)⟩ := by
  unfold Answers.plan
  split
  · next known x l hknown hx hl =>
    simp only [hknown, hx, hl, Option.mem_def, Option.some.injEq, eq_comm (a := p)]
    constructor
    · exact fun h => ⟨known, x, l, rfl, rfl, rfl, h⟩
    · rintro ⟨_, _, _, rfl, rfl, rfl, h⟩
      exact h
  · next hnone =>
    refine iff_of_false (Option.not_mem_none p) ?_
    rintro ⟨known, x, l, hknown, hx, hl, -⟩
    exact hnone known x l hknown hx hl

theorem plan_congr (hregistry : Assoc.get? st'.registry filetype = Assoc.get? st.registry filetype)
    (hsettings : st'.settings = st.settings) (hbundled : st'.bundled = st.bundled) :
    a.plan present st' filetype = a.plan present st filetype := by
  unfold Answers.plan
  rw [hregistry, hsettings, hbundled]

/-- A plan that shows features stays the same when the filetype becomes available, but for how it
came about. -/
theorem plan_of_available (hp : p ∈ a.plan present st filetype) (hshows : p.Shows)
    (havailable : Assoc.get? st'.registry filetype = some .available)
    (hsettings : st'.settings = st.settings) :
    a.plan present st' filetype = some ⟨p.language, p.flags, .available, .start⟩ := by
  obtain ⟨known, x, l, -, hx, hl, rfl⟩ := mem_plan.mp hp
  exact mem_plan.mpr ⟨.available, x, l, havailable, hsettings.trans hx, hl, rfl⟩

/-- What is known of a language that is to be installed. -/
theorem plan_of_install (hp : p ∈ a.plan present st filetype) (hinstall : p.decision = .install) :
    p.known = .unknown ∧ p.flags.autoInstall = true ∧ present = true ∧ p.language ≠ "" := by
  obtain ⟨known, x, l, -, -, hl, rfl⟩ := mem_plan.mp hp
  obtain ⟨hknown, huse⟩ := Decision.of_eq_install hinstall
  obtain ⟨hauto, hpresent⟩ := Bool.and_eq_true_iff.mp huse
  refine ⟨hknown, hauto, hpresent, ?_⟩
  unfold Answers.named at hl
  split at hl
  · simpa using (Option.filter_eq_some_iff.mp hl).2
  · cases hl

/-! ## Making the plan -/

section Planning

variable (hK : Predictable s K a value lit)

include hK

theorem leads_languageFor_foreseen (hP : Blind s [] [.editor] P) (hsteady : ∀ w, P w → K w.outside) :
    Leads P (languageFor s filetype) (fun r w => r = a.named filetype ∧ P w) E := by
  refine Leads.bind (Q := fun r w => r = a (.languageOf filetype) ∧ P w) (leads_attempt_ask
    fun w hw => ⟨hK.answers (.languageOf filetype) trivial _ (hsteady w hw),
      hP.ask _ (by simp [Call.area]) w hw⟩) fun r => Leads.assume fun hr => ?_
  unfold Answers.named
  rw [← hr]
  rcases r with f | language
  · exact Leads.bind (Q := fun _ => P) (leads_note fun w hw => hP.log w _ hw) fun _ =>
      leads_pure fun w hw => ⟨rfl, hw⟩
  · exact leads_pure fun w hw => ⟨rfl, hw⟩

theorem leads_probe_foreseen (hP : Blind s [] [.editor] P) (hsteady : ∀ w, P w → K w.outside)
    (l : String) (known : Availability) :
    Leads P (probe s l known)
      (fun r w => r = (if known = .unknown then a.registers l else false) ∧ P w) E := by
  unfold probe
  split
  · intro w hw
    have answered : registers s l w = a.registers l := by
      unfold registers Answers.registers
      rewrite [hK.answers (.addLanguage l) trivial _ (hsteady w hw)]
      rcases a (.addLanguage l) with f | v
      · rfl
      · cases v <;> rfl
    exact ((leads_grammarReady_exact w).and_keeps (keeps_grammarReady hP l)).weaken
      (fun r v hv => ⟨hv.1.1.trans answered, hv.2⟩) w ⟨rfl, hw⟩
  · exact leads_pure fun w hw => ⟨rfl, hw⟩

/-- A world in which a plan can be foreseen from a state. -/
structure Ready (K : σ → Prop) (st : State) (filetype : String) (w : World σ) : Prop where
  steady : K w.outside
  initialized : w.state.initialized = true
  registry : Assoc.get? w.state.registry filetype = Assoc.get? st.registry filetype
  settings : w.state.settings = st.settings
  bundled : w.state.bundled = st.bundled
  grounded : Assoc.get? st.registry filetype ≠ none → st.settings ≠ none

/-- What is found out is what was foreseen. -/
theorem leads_inquire_foreseen (hP : Blind s [] [.editor] P)
    (hready : ∀ w, P w → Ready K st filetype w) :
    Leads P (inquire s filetype) (fun q w => q = a.inquiry st filetype ∧ P w) E := by
  refine Leads.bind (Q := fun _ => P) (fun w hw => ?_) fun _ => leads_state_eq.bind fun st' => ?_
  · rw [run_prepare_of_initialized (hready w hw).initialized]
    exact hw
  rintro w ⟨rfl, hw⟩
  have ready := hready w hw
  unfold Answers.inquiry
  rw [ready.registry]
  cases hknown : Assoc.get? st.registry filetype with
  | none => exact ⟨rfl, hw⟩
  | some known =>
    obtain ⟨x, hx⟩ := Option.ne_none_iff_exists'.mp (ready.grounded (by simp [hknown]))
    rw [hx]
    refine ((leads_languageFor_foreseen hK hP fun w hw => (hready w hw).steady).bind fun r =>
      Leads.assume fun hr => ?_) w hw
    rw [← hr]
    cases r with
    | none => exact leads_pure fun w hw => ⟨rfl, hw⟩
    | some l =>
      refine Leads.bind (Q := fun flags w => flags = x.resolve (some l) ∧ P w) (fun w hw => ?_)
        fun flags => leads_pure fun w hw => ⟨?_, hw.2⟩
      · rw [run_resolve ((hready w hw).settings.trans hx)]
        exact ⟨rfl, hw⟩
      · rw [hw.1]

/-- What is decided is what was foreseen. Whether there is an installer is only asked if the language
is to be installed on demand. -/
theorem leads_decideOn_foreseen (hready : ∀ w, P w → Ready K st filetype w) (hQ : Blind s [] [.editor] Q)
    (hback : ∀ w, Q w → P w) (q : Inquiry)
    (hidle : q.flags.autoInstall = false → ∀ w, P w → Q w)
    (hseek : q.flags.autoInstall = true →
      Leads P (Gateway.isPresent s) (fun r w => r = present ∧ Q w) E) :
    Leads P (decideOn s q) (fun p w => p = a.decision present st q ∧ Q w) E := by
  refine Leads.bind (Q := fun use w => use = (q.flags.autoInstall && present) ∧ Q w) ?_
    fun use => Leads.assume fun huse => ?_
  · unfold mayInstall
    split
    · next hauto =>
      rw [hauto, Bool.true_and]
      exact hseek hauto
    · next hauto =>
      rw [Bool.eq_false_iff.mpr hauto, Bool.false_and]
      exact leads_pure fun w hw => ⟨rfl, hidle (Bool.eq_false_iff.mpr hauto) w hw⟩
  refine leads_state_eq.bind fun st' => ?_
  rintro w ⟨rfl, hw⟩
  rw [(hready w (hback w hw)).bundled, huse]
  refine ((leads_probe_foreseen hK hQ (fun w hw => (hready w (hback w hw)).steady) _ _).bind
    fun r => Leads.assume fun hr => ?_) w hw
  subst hr
  exact leads_pure fun w hw => ⟨rfl, hw⟩

/-- The plan is made that was foreseen. Whether there is an installer is only asked if the plan is for
a language that is to be installed on demand. -/
theorem leads_plan_forecast (hP : Blind s [] [.editor] P) (hready : ∀ w, P w → Ready K st filetype w)
    (hQ : Blind s [] [.editor] Q) (hback : ∀ w, Q w → P w)
    (hidle : (∀ q ∈ a.plan present st filetype, q.flags.autoInstall = false) → ∀ w, P w → Q w)
    (hseek : ∀ q ∈ a.plan present st filetype, q.flags.autoInstall = true →
      Leads P (Gateway.isPresent s) (fun r w => r = present ∧ Q w) E) :
    Leads P (plan s filetype) (fun p w => p = a.plan present st filetype ∧ Q w) E := by
  refine (leads_inquire_foreseen hK hP hready).bind fun q => Leads.assume fun hq => ?_
  rw [Answers.plan_eq_map, ← hq] at hidle hseek ⊢
  cases q with
  | none => exact leads_pure fun w hw => ⟨rfl, hidle nofun w hw⟩
  | some q =>
    have decided : Leads P (decideOn s q) (fun p w => p = a.decision present st q ∧ Q w) E := by
      refine leads_decideOn_foreseen hK hready hQ hback q (fun hauto => hidle ?_) fun hauto =>
        hseek _ rfl hauto
      rintro p ⟨⟩
      exact hauto
    exact decided.bind fun p => leads_pure fun w hw => ⟨congrArg some hw.1, hw.2⟩

/-- **Attaching does what was foreseen**: features are shown, or a language is to be installed, or
nothing is done. -/
theorem leads_attach_forecast {document : Handle} {R : Option Availability → World σ → Prop}
    (hP : Blind s [] [.editor] P) (hready : ∀ w, P w → Ready K st filetype w)
    (hQ : Blind s [] [.editor] Q) (hback : ∀ w, Q w → P w)
    (hidle : (∀ q ∈ a.plan present st filetype, q.flags.autoInstall = false) → ∀ w, P w → Q w)
    (hseek : ∀ q ∈ a.plan present st filetype, q.flags.autoInstall = true →
      Leads P (Gateway.isPresent s) (fun r w => r = present ∧ Q w) E)
    (hnone : a.plan present st filetype = none → ∀ w, Q w → R none w)
    (hleave : ∀ q ∈ a.plan present st filetype, q.decision = .leave →
      ∀ w, Q w → R (some q.known) w)
    (hshow : ∀ q ∈ a.plan present st filetype, q.Shows →
      Leads Q (startAvailable s document filetype q.language q.flags) R E)
    (hinstall : ∀ q ∈ a.plan present st filetype, q.decision = .install →
      Leads Q (installFor s document filetype q.language) (fun _ => R (some q.known)) E) :
    Leads P (attach s document filetype) R E := by
  refine (leads_plan_forecast hK hP hready hQ hback hidle hseek).bind fun p =>
    Leads.assume fun hp => ?_
  cases p with
  | none => exact leads_pure (hnone hp.symm)
  | some q =>
    simp only [carryOut]
    split
    case h_1 hd => exact hshow q hp.symm (.inl hd)
    case h_2 hd => exact leads_pure (hleave q hp.symm hd)
    case h_3 hd => exact (hinstall q hp.symm hd).bind fun _ => leads_pure fun _ hw => hw
    case h_4 hd =>
      exact Leads.bind (Q := fun _ => Q) (leads_note fun w hw => hQ.log w _ hw) fun _ =>
        hshow q hp.symm (.inr hd)

/-! ## Forecasts from a world -/

/-- Nothing happened since a world, but that somebody may have looked for an installer; it is settled
what looking for one will find. -/
structure Idle (s : Surroundings σ) (K : σ → Prop) (value : σ → Slot → Value)
    (lit : σ → Handle → Option String) (present : Bool) (w v : World σ) : Prop where
  steady : K v.outside
  searched : Searched w.state v
  options : value v.outside = value w.outside
  highlighting : lit v.outside = lit w.outside
  finds : Gateway.Finds s K present v.state.gateway.installer

/-- The same once a plan was made: if it may have a language installed on demand, somebody has looked
for an installer. -/
structure Looked (s : Surroundings σ) (K : σ → Prop) (a : Answers) (value : σ → Slot → Value)
    (lit : σ → Handle → Option String) (present : Bool) (filetype : String) (w v : World σ) : Prop
    extends Idle s K value lit present w v where
  sought : ∀ q ∈ a.plan present w.state filetype, q.flags.autoInstall = true →
    Gateway.Sought present v.state.gateway.installer

omit hK in
theorem Idle.refl {w : World σ} (hw : K w.outside)
    (hfinds : Gateway.Finds s K present w.state.gateway.installer) :
    Idle s K value lit present w w :=
  ⟨hw, ⟨_, rfl⟩, rfl, rfl, hfinds⟩

omit hK in
/-- Looking for an installer aside, the state is as it was. -/
theorem Idle.state {w v : World σ} (h : Idle s K value lit present w v) :
    ∃ i, v.state = { w.state with gateway := { w.state.gateway with installer := i } } :=
  h.searched

omit hK in
theorem Idle.ready {w v : World σ} (h : Idle s K value lit present w v)
    (hw : Ready K w.state filetype w) : Ready K w.state filetype v := by
  obtain ⟨i, hi⟩ := h.state
  refine ⟨h.steady, ?_, ?_, ?_, ?_, hw.grounded⟩ <;> rw [hi]
  exact hw.initialized

omit hK in
theorem Idle.plan_eq {w v : World σ} (h : Idle s K value lit present w v) (filetype : String) :
    a.plan present v.state filetype = a.plan present w.state filetype := by
  obtain ⟨i, hi⟩ := h.state
  refine plan_congr ?_ ?_ ?_ <;> rw [hi]

/-- Neither what the editor is asked about filetypes and languages nor the search for an installer
changes what is shown. -/
theorem Idle.ask {w v : World σ} (h : Idle s K value lit present w v) {c : Call}
    (hfeatures : c.area ≠ .features) (hoptions : c.area ≠ .options) :
    Idle s K value lit present w (afterCall s c v) where
  steady := hK.stays c _ h.steady
  searched := h.searched
  options := (hK.unwritten c _ h.steady (Call.written?_of_area_ne hoptions)).trans h.options
  highlighting :=
    (hK.unlit c _ h.steady fun _ => Call.not_lights_of_area_ne hfeatures).trans h.highlighting
  finds := h.finds

theorem blind_idle {w : World σ} : Blind s [] [.editor] (Idle s K value lit present w) where
  log _ _ h := { h with }
  write _ hp := by simp at hp
  ask c hc _ h := by
    have editor : c.area = .editor := List.mem_singleton.mp hc
    exact h.ask hK (by simp [editor]) (by simp [editor])

theorem blind_looked {w : World σ} :
    Blind s [] [.editor] (Looked s K a value lit present filetype w) where
  log _ _ h := { h with }
  write _ hp := by simp at hp
  ask c hc v h := ⟨(blind_idle hK).ask c hc v h.toIdle, h.sought⟩

/-- Looking for an installer leaves a world idle, and finds what was foreseen. -/
theorem leads_isPresent_idle {w : World σ} :
    Leads (Idle s K value lit present w) (Gateway.isPresent s)
      (fun r v => r = present ∧ Idle s K value lit present w v ∧
        Gateway.Sought present v.state.gateway.installer) E := by
  let Same (v : World σ) : Prop := K v.outside ∧ Searched w.state v ∧
    value v.outside = value w.outside ∧ lit v.outside = lit w.outside
  have same : Blind s [.installer] [.discovery] Same := by
    have searched : Blind s [.installer] [] (Searched w.state) := blind_searched
    refine ⟨fun _ _ h => h, fun p hp v st hst h => ?_, fun c hc v h => ?_⟩
    · exact ⟨h.1, searched.write p hp v st hst h.2.1, h.2.2⟩
    · have discovery : c.area = .discovery := List.mem_singleton.mp hc
      exact ⟨hK.stays c _ h.1, h.2.1, (hK.unwritten c _ h.1 (Call.written?_of_area_ne
        (by simp [discovery]))).trans h.2.2.1, (hK.unlit c _ h.1 fun _ =>
          Call.not_lights_of_area_ne (by simp [discovery])).trans h.2.2.2⟩
  exact (Gateway.leads_isPresent_finds same fun _ h => h.1).mono
    (fun v hv => ⟨⟨hv.steady, hv.searched, hv.options, hv.highlighting⟩, hv.finds⟩)
    (fun r v ⟨hr, hv, hsought⟩ => ⟨hr, ⟨hv.1, hv.2.1, hv.2.2.1, hv.2.2.2, hsought.finds⟩, hsought⟩)
    fun _ hv => hv

/-- What attaching does from a world. -/
theorem leads_attach_idle {w : World σ} {document : Handle}
    {R : Option Availability → World σ → Prop} (hw : Ready K w.state filetype w)
    (hnone : a.plan present w.state filetype = none →
      ∀ v, Looked s K a value lit present filetype w v → R none v)
    (hleave : ∀ q ∈ a.plan present w.state filetype, q.decision = .leave →
      ∀ v, Looked s K a value lit present filetype w v → R (some q.known) v)
    (hshow : ∀ q ∈ a.plan present w.state filetype, q.Shows →
      Leads (Looked s K a value lit present filetype w)
        (startAvailable s document filetype q.language q.flags) R E)
    (hinstall : ∀ q ∈ a.plan present w.state filetype, q.decision = .install →
      Leads (Looked s K a value lit present filetype w) (installFor s document filetype q.language)
        (fun _ => R (some q.known)) E) :
    Leads (Idle s K value lit present w) (attach s document filetype) R E :=
  leads_attach_forecast hK (blind_idle hK) (fun _ hv => hv.ready hw) (blind_looked hK)
    (fun _ hv => hv.toIdle) (fun hidle _ hv => ⟨hv, fun q hq hauto => by simp [hidle q hq] at hauto⟩)
    (fun _ _ _ => (leads_isPresent_idle hK).weaken fun _ _ hv => ⟨hv.1, hv.2.1, fun _ _ _ => hv.2.2⟩)
    hnone hleave hshow hinstall

end Planning

end Enablement

/-! ## Having a language installed -/

/-- The state after a document had a language installed, while there is an installer: it waits if the
loop runs, and otherwise no document waits for the language any more. -/
def State.install (st : State) (language : String) (y : Waiter) : State :=
  if st.loop.isRunning then
    Gateway.accept (st.enqueue language y) [language] (some .enablement)
  else (st.enqueue language y).dequeue language

theorem Enablement.leads_installFor_install {l : String} (hl : l ≠ "") (document : Handle)
    (filetype : String) (hlog : ∀ w log, Q w → Q { w with log := log })
    (hpresent : ∀ w, P w → w.state.gateway.installer = .present)
    (hinstall : ∀ w, P w → Q { w with state := w.state.install l ⟨document, filetype⟩ }) :
    Leads P (installFor s document filetype l) (fun _ => Q) E := by
  refine (leads_installFor_present (P := P) hl document filetype hlog (fun w hw hr => ?_)
    fun w hw hr => ?_).mono (fun w hw => ⟨hw, hpresent w hw⟩) (fun _ _ hw => hw) fun _ hw => hw
  · have installed := hinstall w hw
    rwa [State.install, if_pos hr] at installed
  · have installed := hinstall w hw
    rwa [State.install, if_neg (Bool.eq_false_iff.mp hr)] at installed

/-- It touches the documents that wait, the languages in flight, who hears about them and the loop. -/
theorem State.install_eq (st : State) (l : String) (y : Waiter) :
    ∃ waiters pending callbacks loop, st.install l y =
      { st with
        waiters := waiters
        gateway := { st.gateway with pending := pending, callbacks := callbacks }
        loop := loop } := by
  unfold State.install
  split
  · rw [Gateway.accept_eq, Gateway.listenAll_eq]
    exact ⟨_, _, _, _, rfl⟩
  · exact ⟨_, _, _, _, rfl⟩

/-! ## Runs -/

/-- Every step leaves the records where they belong. -/
theorem exec_tidy (step : Step σ) {w : World σ} (hw : w.state.features.Tidy) :
    (exec s step w).state.features.Tidy := by
  cases step with
  | call b o =>
    exact Enablement.exec_call_entries (I := fun w => w.state.features.Tidy) blind_tidy
      (Enablement.keeps_prepare blind_tidy) (fun _ _ _ hw _ _ => hw) hw
  | work j =>
    exact Enablement.exec_work_entries (I := fun w => w.state.features.Tidy) blind_tidy
      (fun _ _ hw => hw) (fun _ _ _ _ hw _ _ => hw) hw
  | _ => exact hw

theorem Initial.tidy {w : World σ} (hw : Initial w) : w.state.features.Tidy := by
  intro d
  rw [hw.state]
  exact OverrideTable.proper_nil

/-- What is known of all worlds that runs end in: records stand where they belong, and while filetypes
are managed there are settings. -/
structure Sane (w : World σ) : Prop where
  grounded : Enablement.Grounded w
  tidy : w.state.features.Tidy

theorem sane_run {w₀ : World σ} (hw₀ : Initial w₀) (steps : List (Step σ)) :
    Sane (run s steps w₀) :=
  ⟨run_induction (fun x _ _ => Enablement.exec_grounded x) (Enablement.grounded_initial hw₀),
    run_induction (I := fun w => w.state.features.Tidy) (fun x _ _ => exec_tidy x) hw₀.tidy⟩

/-- Whether the loop runs does not matter to that. -/
theorem sane_setRunning {w : World σ} {b : Bool} : Sane (w.setRunning b) ↔ Sane w :=
  ⟨fun h => ⟨⟨h.grounded.unprepared, h.grounded.known⟩, h.tidy⟩,
    fun h => ⟨⟨h.grounded.unprepared, h.grounded.known⟩, h.tidy⟩⟩

theorem Sane.ready {w : World σ} (h : Sane w) (hsteady : K w.outside)
    (hinitialized : w.state.initialized = true) (filetype : String) :
    Enablement.Ready K w.state filetype w :=
  ⟨hsteady, hinitialized, rfl, rfl, rfl,
    fun hentry => h.grounded.known fun he => hentry (by rw [he]; rfl)⟩

/-! ## Starting a document -/

/-- A document of a filetype was enabled: its entry was set, and the features were changed. The
installer is one with a given property. -/
def Enablement.Enabled (C : Installer → Prop) (filetype : String) (w v : World σ) : Prop :=
  ∃ i g, C i ∧ v.state =
    { w.state with
      registry := w.state.registry.set filetype .available
      features := g
      gateway := { w.state.gateway with installer := i } }

theorem Enablement.blind_enabled {C : Installer → Prop} {filetype : String} {areas : List Area}
    {w : World σ} : Blind s [.features] areas (Enabled C filetype w) := by
  refine Blind.of_state (J := fun st => ∃ i g, C i ∧ st =
    { w.state with
      registry := w.state.registry.set filetype .available
      features := g
      gateway := { w.state.gateway with installer := i } }) fun p hp st st' hst h => ?_
  obtain ⟨i, g, hi, rfl⟩ := h
  cases List.mem_singleton.mp hp
  cases hst with
  | features _ g' => exact ⟨i, g', hi, rfl⟩

/-- Starting a document of a filetype sets the entry, and does what showing features leads to. -/
theorem Enablement.leads_startAvailable_enabled {C : Installer → Prop} {w : World σ}
    {A R : World σ → Prop} {document : Handle} {filetype l : String} {flags : Flags}
    (hlog : ∀ v k, P v → P { v with log := k })
    (hstate : ∀ v, P v → ∃ i, C i ∧
      v.state = { w.state with gateway := { w.state.gateway with installer := i } })
    (hset : ∀ v, P v →
      A { v with state := { v.state with registry := v.state.registry.set filetype .available } })
    (hstart : Leads A (Features.start s document l flags) (fun _ => R) fun _ => False)
    (hshown : ∀ v k, R v → R { v with log := k }) :
    Leads P (startAvailable s document filetype l flags)
      (fun r v => r = some .available ∧ R v ∧ Enabled C filetype w v) E := by
  refine (leads_setAvailability_by (Q := fun v => A v ∧ Enabled C filetype w v) hlog
    fun v hv => ?_).bind fun _ => Leads.bind (Q := fun _ v => R v ∧ Enabled C filetype w v)
      (Leads.shielded ?_ fun v k hv => ⟨hshown v k hv.1, hv.2⟩) fun _ =>
        leads_pure fun v hv => ⟨rfl, hv⟩
  · obtain ⟨i, hi, hst⟩ := hstate v hv
    refine ⟨hset v hv, i, w.state.features, hi, ?_⟩
    dsimp only
    rw [hst]
  · exact hstart.and_keeps (Features.keeps_start blind_enabled document l flags)

/-! ## Events -/

/-- An event attaches the document, while documents are attached by themselves. -/
theorem run_filetypeEvent (document : Handle) (filetype : String) (w : World σ) :
    (Controller.filetypeEvent s (some document) (some filetype)).run w =
      if w.state.autoAttach then (Enablement.attach s document filetype).run w else (.ok none, w) := by
  rw [Controller.filetypeEvent, run_bind_of_ok _ (run_state w)]
  split
  · have named : (Controller.subject s (some document) (some filetype)).run w =
        (.ok (document, filetype), w) := rfl
    rw [Controller.attach, run_bind_of_ok _ named]
  · rfl

theorem exec_event {document : Option Handle} {filetype : Option String} {b : Bool} {w v : World σ}
    {r : Except Fault (Option Availability)}
    (h : (Controller.filetypeEvent s document filetype).run (w.setRunning b) = (r, v)) :
    exec s (.call b (.filetypeEvent document filetype)) w = v.setRunning w.state.loop.isRunning := by
  rw [exec_call]
  refine congrArg (fun u => World.setRunning u _) ?_
  rw [perform, run_bind, h]
  cases r <;> rfl

theorem Sane.event {document : Option Handle} {filetype : Option String} {b : Bool}
    {w v : World σ} {r : Except Fault (Option Availability)} (hw : Sane w)
    (h : (Controller.filetypeEvent s document filetype).run (w.setRunning b) = (r, v)) :
    Sane v := by
  rw [← sane_setRunning, ← exec_event h]
  exact ⟨Enablement.exec_grounded _ hw.grounded, exec_tidy _ hw.tidy⟩

end TreeFeatures
