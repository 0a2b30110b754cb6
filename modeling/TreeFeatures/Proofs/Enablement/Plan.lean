import TreeFeatures.Proofs.Install.Request

/-!
# Planning and carrying out

Planning changes nothing that documents or installs depend on (`keeps_plan`), and `leads_plan` says
what is known before an install: there is an installer, and the language has a name. Carrying out a
plan sets the entry of the filetype, or has the language installed, or does nothing
(`leads_carryOut_by`). The judgement on an install sets entries of managed filetypes
(`keeps_judgeInstall_managed`).

`planManaged` is the part of planning that follows once the filetype is known to be managed and to
have a language; `leads_plan_by` puts planning together from its pieces.

`mem_waitersOf_enqueue` and `waitersOf_dequeue_self` say who waits after a document joins the queue
of a language, and after the queue is taken.
-/

namespace TreeFeatures.Enablement

open Act

variable {σ : Type} (s : Surroundings σ)

/-- Decide what to do for the documents of a filetype that has a language. -/
def planManaged (language : String) (known : Availability) : Act σ Plan := do
  decideOn s ⟨known, language, ← resolve s (some language)⟩

/-- Attach a document of a filetype that has a language: what `EnablementEngine.attach` does from
there on. -/
def attachManaged (document : Handle) (filetype language : String) (known : Availability) :
    Act σ (Option Availability) := do
  carryOut s document filetype (some (← planManaged s language known))

/-! ## Waiting lists -/

theorem waitersOf_enqueue_of_ne (st : State) {l l' : String} (y : Waiter) (h : l' ≠ l) :
    (st.enqueue l' y).waitersOf l = st.waitersOf l := by
  unfold State.enqueue State.waitersOf
  rw [Assoc.get?_put_of_ne _ _ h]

theorem mem_waitersOf_enqueue {st : State} {l : String} {x y : Waiter} :
    x ∈ (st.enqueue l y).waitersOf l ↔ x ∈ st.waitersOf l ∨ x = y := by
  have hlist : (st.enqueue l y).waitersOf l =
      if y ∈ st.waitersOf l then st.waitersOf l else st.waitersOf l ++ [y] := by
    unfold State.enqueue
    simp only [State.waitersOf, Assoc.get?_put_self, Option.getD_some]
  rw [hlist]
  split
  · next hy => exact ⟨.inl, fun h => h.elim id fun e => e ▸ hy⟩
  · simp

theorem waitersOf_dequeue_self (st : State) (l : String) : (st.dequeue l).waitersOf l = [] := by
  unfold State.dequeue State.waitersOf
  rw [Assoc.get?_remove_self]
  rfl

theorem waitersOf_dequeue_of_ne (st : State) {l l' : String} (h : l' ≠ l) :
    (st.dequeue l').waitersOf l = st.waitersOf l := by
  unfold State.dequeue State.waitersOf
  rw [Assoc.get?_remove_of_ne _ h]

/-- Who waits after a document joined a queue waited before, or is that document. -/
theorem of_mem_waitersOf_enqueue {st : State} {l l' : String} {x y : Waiter}
    (h : x ∈ (st.enqueue l' y).waitersOf l) : x ∈ st.waitersOf l ∨ l' = l ∧ x = y := by
  by_cases e : l' = l
  · subst e
    exact (mem_waitersOf_enqueue.mp h).imp_right fun hx => ⟨rfl, hx⟩
  · rw [waitersOf_enqueue_of_ne _ _ e] at h
    exact .inl h

/-- Who waits after a queue was taken waited before, for another language. -/
theorem of_mem_waitersOf_dequeue {st : State} {l l' : String} {x : Waiter}
    (h : x ∈ (st.dequeue l').waitersOf l) : x ∈ st.waitersOf l := by
  by_cases e : l' = l
  · subst e
    rw [waitersOf_dequeue_self] at h
    cases h
  · rw [waitersOf_dequeue_of_ne _ e] at h
    exact h

/-! ## Footprints -/

variable {s} {I : World σ → Prop}

theorem keeps_languageFor (h : Blind s [] [.editor] I) (filetype : String) :
    Keeps I (languageFor s filetype) := by
  refine Keeps.bind (h.keeps_ask (by simp [Call.area])).attempt fun r => ?_
  rcases r with f | language
  · exact h.keeps_note.bind fun _ => keeps_pure
  · exact keeps_pure

/-- Trying a grammar does not fail. -/
theorem leads_grammarReady_any {E : World σ → Prop} (h : Blind s [] [.editor] I)
    (language : String) : Leads I (grammarReady s language) (fun _ => I) E := by
  refine (h.keeps_ask (by simp [Call.area])).leads_attempt.bind fun r => ?_
  rcases r with f | v
  · exact Leads.bind (Q := fun _ => I) (leads_note fun w hw => h.log w _ hw) fun _ =>
      leads_pure fun _ hw => hw
  · cases v <;> exact leads_pure fun _ hw => hw

theorem keeps_grammarReady (h : Blind s [] [.editor] I) (language : String) :
    Keeps I (grammarReady s language) :=
  (leads_grammarReady_any h language).keeps

theorem leads_probe_any {E : World σ → Prop} (h : Blind s [] [.editor] I) (language : String)
    (known : Availability) : Leads I (probe s language known) (fun _ => I) E :=
  (leads_grammarReady_any h language).ite (leads_pure fun _ hw => hw)

/-- Setting an entry, and an entry of the log about it. -/
theorem leads_setAvailability_by {P Q E : World σ → Prop}
    (hlog : ∀ w l, P w → P { w with log := l }) {filetype : String} {a : Availability}
    (hset : ∀ w, P w →
      Q { w with state := { w.state with registry := w.state.registry.set filetype a } }) :
    Leads P (setAvailability filetype a) (fun _ => Q) E :=
  leads_state_any.bind fun _ =>
    Leads.bind (Q := fun _ => P) (fun w hw => hlog w _ hw) fun _ => leads_update hset

theorem keeps_mayInstall (h : Blind s [.installer] [.discovery] I) (flags : Flags) :
    Keeps I (mayInstall s flags) :=
  Keeps.ite (Gateway.keeps_isPresent h) keeps_pure

/-- An installer may be used if and only if the flags allow it and there is one. -/
theorem leads_mayInstall {E : World σ → Prop} (h : Blind s [.installer] [.discovery] I)
    (flags : Flags) :
    Leads I (mayInstall s flags)
      (fun b w => I w ∧
        (b = true ↔ flags.autoInstall = true ∧ w.state.gateway.installer = .present)) E := by
  unfold mayInstall
  split
  · next hauto =>
    refine (Gateway.leads_isPresent h).weaken fun b w hw => ⟨hw.1, hw.2.trans ?_⟩
    exact ⟨fun hp => ⟨hauto, hp⟩, fun hp => hp.2⟩
  · next hauto => exact leads_pure fun w hw => ⟨hw, nofun, fun hp => absurd hp.1 hauto⟩

/-- A plan follows from what was found out. -/
structure Inquiry.Suggests (q : Inquiry) (p : Plan) : Prop where
  language : p.language = q.language
  flags : p.flags = q.flags
  known : p.known = q.known
  decision : ∃ ready bundled useInstaller,
    p.decision = Decision.of q.known ready bundled useInstaller

/-- Deciding is a matter of asking, and does not fail. -/
theorem leads_decideOn {E : World σ → Prop} (h : Blind s [.installer] [.editor, .discovery] I)
    (q : Inquiry) : Leads I (decideOn s q) (fun p w => I w ∧ q.Suggests p) E := by
  refine ((leads_mayInstall (h.mono (by simp) (by simp)) _).weaken fun _ _ hw => hw.1).bind
    fun use => ?_
  refine leads_state_any.bind fun st => ?_
  refine (leads_probe_any (h.mono (by simp) (by simp)) _ _).bind fun ready => ?_
  exact leads_pure fun w hw => ⟨hw, rfl, rfl, rfl, ready, _, use, rfl⟩

/-- A plan was made for documents of a language, given what is known about their filetype. -/
structure Plan.For (language : String) (known : Availability) (p : Plan) : Prop where
  decision : ∃ ready bundled useInstaller,
    p.decision = Decision.of known ready bundled useInstaller
  language : p.language = language

theorem leads_planManaged_for (h : Blind s [.settings, .installer] [.editor, .discovery] I)
    (language : String) (known : Availability) :
    Leads I (planManaged s language known) (fun p w => I w ∧ p.For language known) I := by
  refine (keeps_resolve (h.mono (by simp) (by simp)) _).leads.bind fun flags => ?_
  exact (leads_decideOn (h.mono (by simp) (by simp)) _).weaken fun p w hw =>
    ⟨hw.1, hw.2.decision, hw.2.language⟩

theorem keeps_planManaged (h : Blind s [.settings, .installer] [.editor, .discovery] I)
    (language : String) (known : Availability) : Keeps I (planManaged s language known) :=
  ((leads_planManaged_for h language known).weaken fun _ _ hw => hw.1).keeps

/-- What planning may touch. -/
abbrev planParts : List Part := [.settings, .registry, .bundled, .initialized, .installer]

/-- An install is only decided on for a filetype about which nothing is known, and only if there
is an installer. -/
theorem Decision.of_eq_install {known : Availability} {ready bundled useInstaller : Bool}
    (h : Decision.of known ready bundled useInstaller = .install) :
    known = .unknown ∧ useInstaller = true := by
  revert h
  cases known <;> cases ready <;> cases bundled <;> cases useInstaller <;> simp [Decision.of]

/-- Documents are started if that is known to work, or nothing is known and the grammar is
registered. -/
theorem Decision.of_eq_start {known : Availability} {ready bundled useInstaller : Bool}
    (h : Decision.of known ready bundled useInstaller = .start) :
    known = .available ∨ known = .unknown ∧ ready = true := by
  revert h
  cases known <;> cases ready <;> cases bundled <;> cases useInstaller <;> simp [Decision.of]

/-- The bundled queries only serve if there are any. -/
theorem Decision.of_eq_fallBack {known : Availability} {ready bundled useInstaller : Bool}
    (h : Decision.of known ready bundled useInstaller = .fallBack) : bundled = true := by
  revert h
  cases known <;> cases ready <;> cases bundled <;> cases useInstaller <;> simp [Decision.of]

/-- What is known once an install was decided on. -/
def Plan.Ready (p : Plan) (w : World σ) : Prop :=
  p.decision = .install → w.state.gateway.installer = .present ∧ p.language ≠ ""

theorem leads_planManaged (h : Blind s [.settings, .installer] [.editor, .discovery] I)
    {language : String} (hl : language ≠ "") (known : Availability) :
    Leads I (planManaged s language known) (fun p w => I w ∧ p.Ready w) I := by
  refine (keeps_resolve (h.mono (by simp) (by simp)) _).leads.bind fun flags => ?_
  refine Leads.bind (Q := fun use w => I w ∧ (use = true → w.state.gateway.installer = .present))
    ((leads_mayInstall (h.mono (by simp) (by simp)) flags).weaken fun use w hw =>
      ⟨hw.1, fun huse => (hw.2.mp huse).2⟩) fun use => ?_
  have hb : Blind s [] [.editor]
      fun w => I w ∧ (use = true → w.state.gateway.installer = .present) :=
    (h.mono (by simp) (by simp)).and
      (Blind.of_state (J := fun st => use = true → st.gateway.installer = .present) nofun)
  refine leads_state_any.bind fun st => ?_
  have probed : Keeps (fun w => I w ∧ (use = true → w.state.gateway.installer = .present))
      (probe s language known) := Keeps.ite (keeps_grammarReady hb language) keeps_pure
  refine (probed.leads.mono (fun _ => id) (fun _ _ => id) fun w hw => hw.1).bind fun ready => ?_
  exact leads_pure fun w hw => ⟨hw.1, fun hd => ⟨hw.2 (Decision.of_eq_install hd).2, hl⟩⟩

/-- Finding out about a filetype, piece by piece: setting up, looking for the entry and the language
of the filetype, and for the flags of the language. -/
theorem leads_inquire_by {P J E : World σ → Prop} {T : String → Prop}
    {Q : Option Inquiry → World σ → Prop} {filetype : String}
    (hprepare : Leads P (prepare s) (fun _ => J) E) (hnone : ∀ w, J w → Q none w)
    (hlanguage : ∀ known,
      Leads (fun w => J w ∧ Assoc.get? w.state.registry filetype = some known)
        (languageFor s filetype)
        (fun r w => (J w ∧ Assoc.get? w.state.registry filetype = some known) ∧ ∀ l ∈ r, T l) E)
    (hresolve : ∀ known language, T language →
      Leads (fun w => J w ∧ Assoc.get? w.state.registry filetype = some known)
        (resolve s (some language)) (fun flags => Q (some ⟨known, language, flags⟩)) E) :
    Leads P (inquire s filetype) Q E := by
  refine hprepare.bind fun _ => leads_state_eq.bind fun st => ?_
  cases hk : Assoc.get? st.registry filetype with
  | none => exact leads_pure fun w hw => hnone w hw.2
  | some known =>
    refine Leads.bind (Q := fun r w => (J w ∧ Assoc.get? w.state.registry filetype = some known) ∧
      ∀ l ∈ r, T l) ((hlanguage known).mono (fun w hw => ⟨hw.2, ?_⟩) (fun _ _ h => h)
        fun _ h => h) fun r => ?_
    · rw [← hw.1]
      exact hk
    · cases r with
      | none => exact leads_pure fun w hw => hnone w hw.1.1
      | some language =>
        intro w hw
        exact ((hresolve known language (hw.2 language rfl)).bind fun _ => leads_pure fun _ => id)
          w hw.1

/-- Planning, piece by piece: setting up, looking for the entry and the language of the filetype,
and deciding. -/
theorem leads_plan_by {P J E : World σ → Prop} {T : String → Prop}
    {Q : Option Plan → World σ → Prop} {filetype : String}
    (hprepare : Leads P (prepare s) (fun _ => J) E) (hnone : ∀ w, J w → Q none w)
    (hlanguage : ∀ known,
      Leads (fun w => J w ∧ Assoc.get? w.state.registry filetype = some known)
        (languageFor s filetype)
        (fun r w => (J w ∧ Assoc.get? w.state.registry filetype = some known) ∧ ∀ l ∈ r, T l) E)
    (hmanaged : ∀ known language, T language →
      Leads (fun w => J w ∧ Assoc.get? w.state.registry filetype = some known)
        (planManaged s language known) (fun p => Q (some p)) E) :
    Leads P (plan s filetype) Q E := by
  -- what was found out is something from which deciding leads where it should
  let Promising (q : Option Inquiry) (w : World σ) : Prop :=
    Leads (fun v => v = w) (planFor s q) Q E
  refine Leads.bind (Q := Promising) (leads_inquire_by hprepare (fun w hw => ?_) hlanguage
    fun known language hl => ?_) fun q w hw => hw w rfl
  · exact leads_pure fun v hv => hv ▸ hnone w hw
  · refine (hmanaged known language hl).of_bind.weaken fun flags w hw => ?_
    exact Leads.bind (Q := fun p => Q (some p)) hw fun p => leads_pure fun _ => id

/-! ## Attaching, step by step -/

section Prepared

variable {w u v : World σ} {fresh : Bool} {filetype language : String} {known : Availability}

/-- Setting up may fail. -/
theorem run_attach_of_unprepared {f : Fault} (h : (prepare s).run w = (.error f, u))
    (document : Handle) (filetype : String) :
    (attach s document filetype).run w = (.error f, u) := by
  have inquired : (inquire s filetype).run w = (.error f, u) := run_bind_of_error _ h
  have planned : (plan s filetype).run w = (.error f, u) := run_bind_of_error _ inquired
  exact run_bind_of_error _ planned

/-- Nothing is done for a filetype that is not managed. -/
theorem run_attach_of_unmanaged (hprepared : (prepare s).run w = (.ok fresh, u))
    (document : Handle) (h : Assoc.get? u.state.registry filetype = none) :
    (attach s document filetype).run w = (.ok none, u) := by
  have inquired : (inquire s filetype).run w = (.ok none, u) := by
    rw [inquire, run_bind_of_ok _ hprepared, run_bind_of_ok _ (run_state u), h]
    rfl
  have planned : (plan s filetype).run w = (.ok none, u) := run_bind_of_ok _ inquired
  exact run_bind_of_ok _ planned

/-- Nothing is done for a filetype that has no language. -/
theorem run_attach_of_unnamed (hprepared : (prepare s).run w = (.ok fresh, u)) (document : Handle)
    (h : Assoc.get? u.state.registry filetype = some known)
    (hlanguage : (languageFor s filetype).run u = (.ok none, v)) :
    (attach s document filetype).run w = (.ok none, v) := by
  have inquired : (inquire s filetype).run w = (.ok none, v) := by
    rw [inquire, run_bind_of_ok _ hprepared, run_bind_of_ok _ (run_state u), h]
    exact run_bind_of_ok _ hlanguage
  have planned : (plan s filetype).run w = (.ok none, v) := run_bind_of_ok _ inquired
  exact run_bind_of_ok _ planned

/-- Otherwise it is decided what to do, and that is done. -/
theorem run_attach_of_named (hprepared : (prepare s).run w = (.ok fresh, u)) (document : Handle)
    (h : Assoc.get? u.state.registry filetype = some known)
    (hlanguage : (languageFor s filetype).run u = (.ok (some language), v)) :
    (attach s document filetype).run w =
      (attachManaged s document filetype language known).run v := by
  have inquired : (inquire s filetype).run w = (resolve s (some language) >>= fun flags =>
      pure (some ⟨known, language, flags⟩)).run v := by
    rw [inquire, run_bind_of_ok _ hprepared, run_bind_of_ok _ (run_state u), h]
    exact run_bind_of_ok _ hlanguage
  rw [attach, run_bind, plan, run_bind, inquired, ← run_bind, ← run_bind]
  simp only [bind_assoc, pure_bind, planFor, attachManaged, planManaged]

end Prepared

/-- The language of a filetype has a name. -/
theorem leads_languageFor_named {E : World σ → Prop} (h : Blind s [] [.editor] I)
    (filetype : String) :
    Leads I (languageFor s filetype) (fun r w => I w ∧ ∀ l ∈ r, l ≠ "") E := by
  refine Leads.bind (Q := fun _ => I) (leads_attempt_ask fun w hw =>
    h.ask _ (by simp [Call.area]) w hw) fun r => ?_
  rcases r with f | language
  · exact Leads.bind (Q := fun _ => I) (leads_note fun w hw => h.log w _ hw) fun _ =>
      leads_pure fun w hw => ⟨hw, by simp⟩
  · refine leads_pure fun w hw => ⟨hw, fun x hx => ?_⟩
    simpa using (Option.filter_eq_some_iff.mp hx).2

/-- The registry is as it was for a filetype. -/
theorem blind_entry {parts : List Part} {areas : List Area} {filetype : String}
    {entry : Option Availability} (h : Part.registry ∉ parts) :
    Blind s parts areas fun w => Assoc.get? w.state.registry filetype = entry := by
  refine Blind.of_state (J := fun st => Assoc.get? st.registry filetype = entry)
    fun p hp st st' hst he => ?_
  cases hst with
  | registry => exact absurd hp h
  | _ => exact he

/-- Planning, if neither the entry nor the language that was found matters. -/
theorem leads_plan_any {P J : World σ → Prop} {Q : Option Plan → World σ → Prop} {filetype : String}
    (h : Blind s [] [.editor] J) (hprepare : Leads P (prepare s) (fun _ => J) J)
    (hnone : ∀ w, J w → Q none w)
    (hmanaged : ∀ known language,
      Leads J (planManaged s language known) (fun p => Q (some p)) J) :
    Leads P (plan s filetype) Q J := by
  refine leads_plan_by (T := fun _ => True) hprepare hnone (fun known => ?_)
    fun known language _ => ?_
  · have found : Blind s [] [.editor] fun w => J w ∧
        Assoc.get? w.state.registry filetype = some known := h.and (blind_entry (by simp))
    exact (keeps_languageFor found filetype).leads.mono (fun _ hw => hw)
      (fun _ _ hw => ⟨hw, fun _ _ => trivial⟩) fun _ hw => hw.1
  · exact (hmanaged known language).mono (fun _ hw => hw.1) (fun _ _ hw => hw) fun _ hw => hw

theorem keeps_plan (h : Blind s planParts [.editor, .discovery] I) (filetype : String) :
    Keeps I (plan s filetype) :=
  Leads.keeps (leads_plan_any (h.mono (by simp) (by simp))
    (keeps_prepare (h.mono (by simp) (by simp))).leads (fun _ hw => hw)
    fun known language => (keeps_planManaged (h.mono (by simp) (by simp)) language known).leads)

/-- Once an install was decided on, there is an installer and the language has a name. -/
theorem leads_plan (h : Blind s planParts [.editor, .discovery] I) (filetype : String) :
    Leads I (plan s filetype) (fun p w => I w ∧ ∀ q ∈ p, q.Ready w) I := by
  refine leads_plan_by (J := I) (T := (· ≠ ""))
    (keeps_prepare (h.mono (by simp) (by simp))).leads (fun w hw => ⟨hw, nofun⟩)
    (fun known => ?_) fun known language hl => ?_
  · exact leads_languageFor_named ((h.mono (by simp) (by simp)).and (blind_entry (by simp))) _
  · exact (leads_planManaged (h.mono (by simp) (by simp)) hl known).mono (fun w hw => hw.1)
      (fun p w hw => ⟨hw.1, fun q hq => Option.some.inj hq ▸ hw.2⟩) fun _ h => h

/-- The language of a filetype is one that the editor names. -/
theorem leads_languageFor_of {E : World σ → Prop} (h : Blind s [] [.editor] I) {filetype : String}
    {T : String → Prop}
    (hT : ∀ w, I w → ∀ l, (s.reply (.languageOf filetype) w.outside).1 = .ok (some l) → T l) :
    Leads I (languageFor s filetype) (fun r w => I w ∧ ∀ l ∈ r, T l) E := by
  refine Leads.bind (Q := fun (r : Except Fault (Option String)) w =>
    I w ∧ ∀ l, r = .ok (some l) → T l) (leads_attempt_ask fun w hw =>
      ⟨h.ask _ (by simp [Call.area]) w hw, hT w hw⟩) fun r => ?_
  rcases r with f | language
  · exact Leads.bind (Q := fun _ => I) (leads_note fun w hw => h.log w _ hw.1) fun _ =>
      leads_pure fun w hw => ⟨hw, fun l hl => absurd hl (Option.not_mem_none l)⟩
  · refine leads_pure fun w hw => ⟨hw.1, fun l hl => hw.2 l ?_⟩
    rw [(Option.filter_eq_some_iff.mp hl).1]

/-- Starting a document of a filetype sets its entry, counts the document among the active ones, and
then overrides options of it; in the end the filetype is available. -/
theorem leads_startAvailable_of {P K E : World σ → Prop}
    (h : Blind s [] [.features, .options] I) (hlog : ∀ w l, P w → P { w with log := l })
    (document : Handle) {filetype : String}
    (hset : ∀ w, P w →
      K { w with state := { w.state with registry := w.state.registry.set filetype .available } })
    (hactivate : ∀ w, K w → I (w.onFeatures fun f => f.activate document))
    (hoverride : ∀ w t, I w → I (w.onFeatures fun f => f.setOverrides document t))
    (language : String) (flags : Flags) :
    Leads P (startAvailable s document filetype language flags)
      (fun r w => r = some .available ∧ I w) E := by
  refine (leads_setAvailability_by (Q := K) hlog hset).bind fun _ => ?_
  refine Leads.bind (Q := fun _ => I) (Leads.shielded ?_ h.log) fun _ =>
    leads_pure fun _ hw => ⟨rfl, hw⟩
  exact Features.leads_start_of h document hactivate hoverride language flags

/-- Starting a document of a filetype sets its entry, and shows features. -/
theorem leads_startAvailable_by {P E : World σ → Prop}
    (h : Blind s [.features] [.features, .options] I) (hlog : ∀ w l, P w → P { w with log := l })
    (document : Handle) {filetype : String}
    (hset : ∀ w, P w →
      I { w with state := { w.state with registry := w.state.registry.set filetype .available } })
    (language : String) (flags : Flags) :
    Leads P (startAvailable s document filetype language flags) (fun _ => I) E := by
  refine (leads_setAvailability_by (Q := I) hlog hset).bind fun _ => ?_
  refine Leads.bind (Q := fun _ => I) ?_ fun _ => leads_pure fun _ hw => hw
  exact (Features.keeps_start h document language flags).leads.shielded h.log

/-- Carrying out a plan sets the entry of the filetype, or has the language installed, or does
nothing. -/
theorem leads_carryOut_by {P E : World σ → Prop} (h : Blind s [.features] [.features, .options] I)
    (hlog : ∀ w l, P w → P { w with log := l }) (hP : ∀ w, P w → I w) (document : Handle)
    (filetype : String) (p : Option Plan)
    (hset : ∀ q ∈ p, q.decision = .start ∨ q.decision = .fallBack → ∀ w, P w →
      I { w with state := { w.state with registry := w.state.registry.set filetype .available } })
    (hinstall : ∀ q ∈ p, q.decision = .install →
      Leads P (installFor s document filetype q.language) (fun _ => I) E) :
    Leads P (carryOut s document filetype p) (fun _ => I) E := by
  cases p with
  | none => exact leads_pure hP
  | some p =>
    simp only [carryOut]
    split
    case h_1 hd => exact leads_startAvailable_by h hlog document (hset p rfl (.inl hd)) _ _
    case h_2 => exact leads_pure hP
    case h_3 hd => exact (hinstall p rfl hd).bind fun _ => leads_pure fun _ hw => hw
    case h_4 hd =>
      refine Leads.bind (Q := fun _ => P) (leads_note fun w hw => hlog w _ hw) fun _ => ?_
      exact leads_startAvailable_by h hlog document (hset p rfl (.inr hd)) _ _

/-- Carrying out a plan that is no install touches the registry and the features. -/
theorem leads_carryOut {P E : World σ → Prop}
    (h : Blind s [.registry, .features] [.features, .options] I) (hP : ∀ w, P w → I w)
    (document : Handle) (filetype : String) (p : Option Plan)
    (hinstall : ∀ q ∈ p, q.decision = .install →
      Leads P (installFor s document filetype q.language) (fun _ => I) E) :
    Leads P (carryOut s document filetype p) (fun _ => I) E := by
  cases p with
  | none => exact leads_pure hP
  | some p =>
    by_cases hd : p.decision = .install
    · simp only [carryOut, hd]
      exact (hinstall p rfl hd).bind fun _ => leads_pure fun _ hw => hw
    · refine (leads_carryOut_by (P := I) (h.mono (by simp) (by simp)) h.log (fun _ hw => hw)
        document filetype (some p) (fun q _ _ w hw => ?_) fun q hq hd' => ?_).mono hP
          (fun _ _ hw => hw) fun _ hw => hw
      · exact h.write .registry (by simp) w _ (.registry w.state _) hw
      · obtain rfl := Option.some.inj hq
        exact absurd hd' hd

/-- A document that has a language installed touches the documents that wait, the request aside. -/
theorem leads_installFor_of {E : World σ → Prop} (h : Blind s [.waiters] [] I) {language : String}
    (hdispatch : Leads I (Gateway.dispatch s [language] (some .enablement)) (fun _ => I) E)
    (document : Handle) (filetype : String) :
    Leads I (installFor s document filetype language) (fun _ => I) E := by
  have written : ∀ w x, I w → I { w with state := { w.state with waiters := x } } :=
    fun w x hw => h.write .waiters (by simp) w _ (.waiters w.state x) hw
  refine Leads.bind (Q := fun _ => I) (leads_update fun w hw => written w _ hw) fun _ => ?_
  refine hdispatch.bind fun r => ?_
  cases r with
  | none => exact leads_update fun w hw => written w _ hw
  | some id => exact leads_pure fun _ hw => hw

theorem keeps_installFor (h : Blind s [.waiters] [] I) {language : String}
    (hdispatch : Keeps I (Gateway.dispatch s [language] (some .enablement))) (document : Handle)
    (filetype : String) : Keeps I (installFor s document filetype language) :=
  (leads_installFor_of h hdispatch.leads document filetype).keeps

/-- Attaching sets the entry of a managed filetype that is not unavailable, next to things that
matter less. -/
theorem keeps_attach_by
    (h : Blind s [.settings, .features, .installer, .waiters]
      [.editor, .discovery, .features, .options] I)
    (hprepare : Keeps I (prepare s))
    (hdispatch : ∀ language, Keeps I (Gateway.dispatch s [language] (some .enablement)))
    (hset : ∀ filetype known w, I w → Assoc.get? w.state.registry filetype = some known →
      known ≠ .unavailable →
      I { w with state := { w.state with registry := w.state.registry.set filetype .available } })
    (document : Handle) (filetype : String) : Keeps I (attach s document filetype) := by
  let Planned (p : Option Plan) (w : World σ) : Prop := ∀ q ∈ p, ∃ language known,
    Assoc.get? w.state.registry filetype = some known ∧ q.For language known
  have planned : Leads I (plan s filetype) (fun p w => I w ∧ Planned p w) I := by
    refine leads_plan_by (T := fun _ => True) hprepare.leads (fun w hw => ⟨hw, nofun⟩)
      (fun known => ?_) fun known language _ => ?_
    · have found : Blind s [] [.editor] fun w => I w ∧
          Assoc.get? w.state.registry filetype = some known :=
        (h.mono (by simp) (by simp)).and (blind_entry (by simp))
      exact (keeps_languageFor found filetype).leads.mono (fun _ hw => hw)
        (fun _ _ hw => ⟨hw, fun _ _ => trivial⟩) fun _ hw => hw.1
    · have found : Blind s [.settings, .installer] [.editor, .discovery] fun w => I w ∧
          Assoc.get? w.state.registry filetype = some known :=
        (h.mono (by simp) (by simp)).and (blind_entry (by simp))
      exact (leads_planManaged_for found language known).mono (fun _ hw => hw)
        (fun p w hw => ⟨hw.1.1, fun q hq => ⟨language, known, hw.1.2, Option.some.inj hq ▸ hw.2⟩⟩)
        fun _ hw => hw.1
  refine Leads.keeps (planned.bind fun p => ?_)
  refine leads_carryOut_by (h.mono (by simp) (by simp))
    (fun w l hw => ⟨h.log w l hw.1, hw.2⟩) (fun _ hw => hw.1) document filetype p
    (fun q hq hd w hw => ?_) fun q _ _ => ?_
  · -- a document is not started while its filetype is unavailable
    obtain ⟨language, known, hknown, hfor⟩ := hw.2 q hq
    obtain ⟨ready, bundled, useInstaller, hdecision⟩ := hfor.decision
    refine hset filetype known w hw.1 hknown ?_
    rintro rfl
    rw [hdecision] at hd
    exact hd.elim nofun nofun
  · exact (keeps_installFor (h.mono (by simp) (by simp)) (hdispatch _) document filetype).leads.mono
      (fun _ hw => hw.1) (fun _ _ hw => hw) fun _ hw => hw

/-- What attaching may touch. -/
abbrev attachParts : List Part :=
  .features :: .waiters :: .pending :: .callbacks :: .tasks :: .queue :: planParts

theorem keeps_attach (h : Blind s attachParts [.editor, .discovery, .features, .options] I)
    (document : Handle) (filetype : String) : Keeps I (attach s document filetype) :=
  keeps_attach_by (h.mono (by simp) (by simp)) (keeps_prepare (h.mono (by simp) (by simp)))
    (fun _ => Gateway.keeps_dispatch (h.mono (by simp) (by simp)) _ _)
    (fun _ _ w hw _ _ => h.write .registry (by simp) w _ (.registry w.state _) hw) document filetype

theorem keeps_orBundled (language : String) (ready : Bool) :
    Keeps I (orBundled (σ := σ) language ready) :=
  Keeps.ite keeps_pure (keeps_state.bind fun _ => keeps_pure)

theorem keeps_usable (h : Blind s [] [.editor] I) (language : String) (success : Bool) :
    Keeps I (usable s language success) :=
  Keeps.ite ((keeps_grammarReady h language).bind (keeps_orBundled language))
    (keeps_pure.bind (keeps_orBundled language))

theorem leads_noteFallBack {E : World σ → Prop} (h : ∀ w l, I w → I { w with log := l })
    (language : String) (success isAvailable : Bool) :
    Leads I (noteFallBack language success isAvailable) (fun _ => I) E :=
  Leads.ite (leads_note fun w hw => h w _ hw) (leads_pure fun _ => id)

/-- Asking for the filetypes of a language does not fail. -/
theorem leads_listedFor {E : World σ → Prop} (h : Blind s [] [.editor] I) (language : String) :
    Leads I (listedFor s language) (fun _ => I) E := by
  refine Leads.bind (Q := fun _ => I) (leads_attempt_ask fun w hw =>
    h.ask _ (by simp [Call.area]) w hw) fun listed => ?_
  rcases listed with f | listed
  · exact Leads.bind (Q := fun _ => I) (leads_note fun w hw => h.log w _ hw) fun _ =>
      leads_pure fun _ => id
  · exact leads_pure fun _ => id

/-- The managed ones of some filetypes are managed. -/
theorem leads_managedOf {E : World σ → Prop} (filetypes : List String) :
    Leads I (managedOf filetypes)
      (fun fts w => I w ∧ ∀ ft ∈ fts, Assoc.has w.state.registry ft = true) E := by
  refine leads_state_eq.bind fun st => leads_pure fun w hw => ⟨hw.2, fun ft hft => ?_⟩
  rw [← hw.1]
  exact (List.mem_filter.mp hft).2

/-- The filetypes that an install concerns are managed. -/
theorem leads_filetypesOf_managed {E : World σ → Prop} (h : Blind s [] [.editor] I)
    (language : String) (waiters : List Waiter) : Leads I (filetypesOf s language waiters)
      (fun fts w => I w ∧ ∀ ft ∈ fts, Assoc.has w.state.registry ft = true) E :=
  (leads_listedFor h language).bind fun _ => leads_managedOf _

theorem keeps_filetypesOf (h : Blind s [] [.editor] I) (language : String)
    (waiters : List Waiter) : Keeps I (filetypesOf s language waiters) :=
  ((leads_filetypesOf_managed h language waiters).weaken fun _ _ hw => hw.1).keeps

/-- Recording the end of an install for a filetype sets its entry, unless it is available already. -/
theorem leads_judge_by {P Q E : World σ → Prop} (hlog : ∀ w l, P w → P { w with log := l })
    (isAvailable : Bool) (filetype : String) (hleave : ∀ w, P w → Q w)
    (hset : ∀ a w, P w → a ≠ .unknown →
      (Assoc.get? w.state.registry filetype = some .available → a = .available) →
      Q { w with state := { w.state with registry := w.state.registry.set filetype a } }) :
    Leads P (judge isAvailable filetype) (fun _ => Q) E := by
  unfold judge
  split
  · exact leads_setAvailability_by hlog fun w hw => hset _ w hw (by simp) fun _ => rfl
  · refine leads_state_eq.bind fun st => ?_
    split
    · exact leads_pure fun w hw => hleave w hw.2
    · next hst =>
      refine leads_setAvailability_by (fun w l hw => ⟨hw.1, hlog w l hw.2⟩) fun w hw => ?_
      refine hset _ w hw.2 (by simp) fun he => absurd ?_ hst
      rw [hw.1]
      exact he

theorem keeps_judge (h : Blind s [.registry] [] I) (isAvailable : Bool) (filetype : String) :
    Keeps I (judge (σ := σ) isAvailable filetype) :=
  (leads_judge_by h.log isAvailable filetype (fun _ hw => hw) fun _ w hw _ _ =>
    h.write .registry (by simp) w _ (.registry w.state _) hw).keeps

theorem keeps_startWaiters (h : Blind s [.settings, .features] [.features, .options, .editor] I)
    (language : String) (waiters : List Waiter) : Keeps I (startWaiters s language waiters) := by
  refine keeps_state.bind fun st => Keeps.ite ?_ h.keeps_note
  refine (keeps_resolve (h.mono (by simp) (by simp)) _).bind fun flags => Keeps.forM fun x _ => ?_
  refine Keeps.shielded ?_ h.log
  refine (h.keeps_ask (by simp [Call.area])).bind fun valid => Keeps.ite ?_ keeps_pure
  exact Features.keeps_start (h.mono (by simp) (by simp)) _ _ _

/-- Recording whether a language can be used sets entries of managed filetypes, next to things that
matter less. What is available stays so. -/
theorem keeps_enact_managed
    (h : Blind s [.settings, .features] [.features, .options, .editor] I)
    (hset : ∀ filetype a w, I w → Assoc.has w.state.registry filetype = true → a ≠ .unknown →
      (Assoc.get? w.state.registry filetype = some .available → a = .available) →
      I { w with state := { w.state with registry := w.state.registry.set filetype a } })
    (language : String) (waiters : List Waiter) (isAvailable : Bool) :
    Keeps I (enact s language waiters isAvailable) := by
  have he : Blind s [] [.editor] I := h.mono (by simp) (by simp)
  refine Leads.keeps ((leads_filetypesOf_managed he language waiters).bind fun filetypes => ?_)
  let Managed (rest : List String) (w : World σ) : Prop :=
    I w ∧ ∀ ft ∈ rest, Assoc.has w.state.registry ft = true
  have judged : Leads (Managed filetypes) (filetypes.forM (judge isAvailable))
      (fun _ => Managed []) I := by
    refine Leads.forM fun ft rest => leads_judge_by (fun w l hw => ⟨h.log w l hw.1, hw.2⟩) _ ft
      (fun w hw => ⟨hw.1, fun ft' hft => hw.2 ft' (List.mem_cons_of_mem ft hft)⟩)
      fun a w hw ha havailable => ⟨?_, fun ft' hft => ?_⟩
    · exact hset ft a w hw.1 (hw.2 ft List.mem_cons_self) ha havailable
    · exact Assoc.has_put (hw.2 ft' (List.mem_cons_of_mem ft hft)) ft a
  refine judged.bind fun _ => Leads.mono (P := I) (Keeps.leads ?_) (fun _ hw => hw.1)
    (fun _ _ hw => hw) fun _ hw => hw
  exact Keeps.ite (keeps_startWaiters (h.mono (by simp) (by simp)) _ _) h.keeps_note

/-- The same for the judgement on an install. -/
theorem keeps_judgeInstall_managed
    (h : Blind s [.settings, .features] [.features, .options, .editor] I)
    (hset : ∀ filetype a w, I w → Assoc.has w.state.registry filetype = true → a ≠ .unknown →
      (Assoc.get? w.state.registry filetype = some .available → a = .available) →
      I { w with state := { w.state with registry := w.state.registry.set filetype a } })
    (language : String) (success : Bool) (waiters : List Waiter) :
    Keeps I (judgeInstall s language success waiters) := by
  refine (keeps_usable (h.mono (by simp) (by simp)) language success).bind fun isAvailable => ?_
  exact (leads_noteFallBack h.log _ _ _).keeps.bind fun _ => keeps_enact_managed h hset _ _ _

theorem keeps_judgeInstall
    (h : Blind s [.settings, .registry, .features] [.features, .options, .editor] I)
    (language : String) (success : Bool) (waiters : List Waiter) :
    Keeps I (judgeInstall s language success waiters) :=
  keeps_judgeInstall_managed (h.mono (by simp) (by simp))
    (fun _ _ w hw _ _ _ => h.write .registry (by simp) w _ (.registry w.state _) hw) language success
    waiters

/-- The end of an install takes documents off the list and sets entries of managed filetypes, next
to things that matter less. What is available stays so. -/
theorem keeps_installed_managed
    (h : Blind s [.settings, .features] [.features, .options, .editor] I)
    (hset : ∀ filetype a w, I w → Assoc.has w.state.registry filetype = true → a ≠ .unknown →
      (Assoc.get? w.state.registry filetype = some .available → a = .available) →
      I { w with state := { w.state with registry := w.state.registry.set filetype a } })
    {language : String} (hdequeue : ∀ w, I w → I { w with state := w.state.dequeue language })
    (success : Bool) : Keeps I (installed s language success) := by
  refine keeps_state.bind fun st => (keeps_update hdequeue).bind fun _ => ?_
  exact keeps_judgeInstall_managed h hset _ _ _

theorem keeps_installed
    (h : Blind s [.settings, .registry, .features] [.features, .options, .editor] I)
    {language : String} (hdequeue : ∀ w, I w → I { w with state := w.state.dequeue language })
    (success : Bool) : Keeps I (installed s language success) :=
  keeps_installed_managed (h.mono (by simp) (by simp))
    (fun _ _ w hw _ _ _ => h.write .registry (by simp) w _ (.registry w.state _) hw) hdequeue success

end TreeFeatures.Enablement
