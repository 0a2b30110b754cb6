import TreeFeatures.Proofs.Enablement.Evolution
import TreeFeatures.Proofs.Enablement.Stages

/-!
# Installs on demand

A document has the language of its filetype installed while nothing is known about the filetype. If
nobody else requests installs, a language is installed once at most. That rests on it that the end
of an install decides about all filetypes of the language at once, so that none is left to have it
installed again.

* `exec_managed`: a filetype that is managed stays so.
* `keeps_prepare_once`, `keeps_attach_once`: setting up and attaching keep to the stages of a
  language.
* `Calm.installed`: the end of an install settles the entries of the filetypes of its language.
* `leads_advance_beside`, `leads_advance_own`: the tasks of other languages, and that of the language
  itself.
* `exec_once`: every step keeps to the stages.
* `installed_once`: the result. On demand a language is installed once at most, and a filetype that
  has become unavailable stays so.
-/

namespace TreeFeatures.Enablement

open Act Install

variable {σ : Type} {s : Surroundings σ} {E : World σ → Prop}

/-! ## Managed filetypes -/

/-- A filetype is managed. -/
def Managed (ft : String) (w : World σ) : Prop := Assoc.has w.state.registry ft = true

/-- A filetype that is managed stays so in every step. -/
theorem exec_managed {ft : String} (x : Step σ) {w : World σ} (hw : Managed ft w) :
    Managed ft (exec s x w) := by
  let Has (_ : Bool) (r : Registry) : Prop := Assoc.has r ft = true
  cases x with
  | call b o =>
    have prepared : Keeps (OnRegistry Has) (prepare s) :=
      keeps_prepare_registry (J := Has true) (fun _ hr => hr) (fun _ _ hr =>
        Registry.has_seed (.inl hr)) fun _ hr => hr
    exact exec_call_registry (K := Has) prepared (fun _ _ ft' _ hr _ _ => Assoc.has_put hr ft' _) hw
  | work j =>
    exact exec_work_registry (K := Has) (fun _ _ ft' a _ hr _ _ => Assoc.has_put hr ft' a) hw
  | _ => exact hw

/-! ## Setting up and attaching -/

variable {G : String → Option String} {l : String} {gone : List String} {K : Outlook → Prop}
  {w : World σ}

/-- Setting up brings in filetypes about which nothing is known, and only the first time. -/
theorem keeps_prepare_once : Keeps (Looks G l (Outlook.Once G l gone)) (prepare s) := by
  let Fresh (v : Outlook) : Prop := v.initialized = true ∧ gone = [] ∧ v.Idle G l
  have once : ∀ w : World σ, Looks G l Fresh w → Looks G l (Outlook.Once G l gone) w :=
    fun w hw => hw.mono fun v hv => .idle hv.2.1 hv.2.2
  have prepared : Leads (Looks G l (Outlook.Once G l gone)) (prepare s)
      (fun fresh w => if fresh then Looks G l Fresh w
        else Looks G l (Outlook.Once G l gone) w ∧ w.state.initialized = true) (Looks G l Fresh) := by
    refine leads_prepare_by (blind_looks (by decide) (by decide)) (fun w hw hi => ?_)
      fun w answers hw => ?_
    · obtain ⟨calm, hw⟩ := hw
      refine ⟨⟨calm.waiting, calm.heard, calm.alone⟩, rfl, ?_⟩
      cases hw with
      | idle hg h => exact ⟨hg, nofun, h.untasked, h.uncalled, h.spared⟩
      | underway _ _ _ h => exact absurd (h.initialized.symm.trans hi) nofun
      | decided h => exact absurd (h.initialized.symm.trans hi) nofun
    · obtain ⟨calm, hi, hg, h⟩ := hw
      refine ⟨⟨calm.waiting, calm.heard, calm.alone⟩, hi, hg, fun hi' => ?_, h.untasked, h.uncalled,
        fun ft hG hft => ?_⟩
      · exact absurd (hi.symm.trans hi') nofun
      · rcases Registry.get?_seed_cases hft with hold | hnew
        · exact h.spared ft hG hold
        · cases hnew
  refine (prepared.mono (fun _ hw => hw) (fun fresh w hw => ?_) once).keeps
  cases fresh with
  | true => exact once w hw
  | false => exact hw.1

/-- A plan for the documents of a filetype is one for its language and its entry. -/
def Suits (G : String → Option String) (filetype : String) (p : Plan) (v : Outlook) : Prop :=
  ∃ language known, G filetype = some language ∧ v.entry filetype = some known ∧
    p.For language known

theorem leads_plan_once {F : String → List String} (hs : Lists s F G) (filetype : String) :
    Leads (Looks G l (Outlook.Once G l gone)) (plan s filetype)
      (fun p => Looks G l fun v => v.Once G l gone ∧ ∀ q ∈ p, Suits G filetype q v)
      (Looks G l (Outlook.Once G l gone)) := by
  refine leads_plan_by (T := fun language => G filetype = some language) keeps_prepare_once.leads
    (fun w hw => hw.mono fun v hv => ⟨hv, nofun⟩) (fun known => ?_) fun known language hG => ?_
  · exact leads_languageFor_listed hs
      ((blind_looks (by decide) (by decide)).and (blind_entry (by simp))) filetype
  · have blind : Blind s [.settings, .installer] [.editor, .discovery] fun w : World σ =>
        Looks G l (Outlook.Once G l gone) w ∧
          Assoc.get? w.state.registry filetype = some known :=
      (blind_looks (by decide) (by decide)).and (blind_entry (by simp))
    refine (leads_planManaged_for blind language known).mono (fun _ hw => hw) (fun p w hw => ?_)
      fun _ hw => hw.1
    obtain ⟨⟨⟨calm, once⟩, hentry⟩, hfor⟩ := hw
    exact ⟨calm, once, fun q hq => ⟨language, known, hG, hentry, Option.some.inj hq ▸ hfor⟩⟩

/-- A document of a filetype about which nothing is known waits for its language. -/
theorem leads_installFor_once {filetype language : String} (hG : G filetype = some language)
    (document : Handle) :
    Leads (Looks G l fun v => v.Once G l gone ∧ v.entry filetype = some .unknown)
      (installFor s document filetype language) (fun _ => Looks G l (Outlook.Once G l gone)) E := by
  refine (leads_update (Q := Looks G l fun v => v.Once G l gone ∧ v.entry filetype = some .unknown)
    fun w hw => ⟨hw.calm.enqueue hG, hw.holds⟩).bind fun _ => ?_
  refine Leads.bind (Q := fun _ => Looks G l (Outlook.Once G l gone)) ?_ fun r => ?_
  · have once : ∀ w : World σ,
        Looks G l (fun v => v.Once G l gone ∧ v.entry filetype = some .unknown) w →
        Looks G l (Outlook.Once G l gone) w := fun w hw => hw.mono fun v hv => hv.1
    refine Gateway.leads_dispatch (blind_looks (by decide) (by decide))
      (fun _ _ _ hw => ⟨hw.calm, hw.holds⟩) once fun w hw hne _ => ?_
    have named : language ≠ "" := by
      rintro rfl
      exact hne rfl
    rw [Gateway.requested_singleton named]
    exact hw.accept hG
  · cases r with
    | none => exact leads_update fun w hw => ⟨hw.calm.dequeue language, hw.holds⟩
    | some id => exact leads_pure fun _ hw => hw

/-- Attaching a document keeps to the stages. -/
theorem keeps_attach_once {F : String → List String} (hs : Lists s F G) (document : Handle)
    (filetype : String) : Keeps (Looks G l (Outlook.Once G l gone)) (attach s document filetype) := by
  refine Leads.keeps ((leads_plan_once hs filetype).bind fun p => ?_)
  refine leads_carryOut_by (blind_looks (by decide) (by decide))
    (fun _ _ hw => ⟨hw.calm, hw.holds⟩) (fun w hw => hw.mono fun v hv => hv.1) document filetype p
    (fun q hq hd w hw => ?_) fun q hq hd w hw => ?_
  · -- a document is not started while its filetype is unavailable
    obtain ⟨calm, once, suits⟩ := hw
    obtain ⟨language, known, -, hentry, hfor⟩ := suits q hq
    obtain ⟨ready, bundled, use, hdecision⟩ := hfor.decision
    refine ⟨⟨calm.waiting, calm.heard, calm.alone⟩, ?_⟩
    rw [outlook_set]
    refine once.enter_available hentry ?_
    rintro rfl
    rw [hdecision] at hd
    exact hd.elim nofun nofun
  · obtain ⟨calm, once, suits⟩ := hw
    obtain ⟨language, known, hG, hentry, hfor⟩ := suits q hq
    obtain ⟨ready, bundled, use, hdecision⟩ := hfor.decision
    obtain ⟨rfl, -⟩ := Decision.of_eq_install (hdecision.symm.trans hd)
    rw [hfor.language]
    exact leads_installFor_once hG document w ⟨calm, once, hentry⟩

/-! ## The end of an install -/

variable {F : String → List String} {l' : String} {success : Bool}

/-- The editor lists a managed filetype under its language, and under no other one. -/
def Agrees (F : String → List String) (G : String → Option String) (st : State) : Prop :=
  ∀ ft, Assoc.has st.registry ft = true → ∀ l, ft ∈ F l ↔ G ft = some l

theorem blind_agrees {parts : List Part} {areas : List Area} (h : Part.registry ∉ parts) :
    Blind s parts areas fun w => Agrees F G w.state := by
  refine Blind.of_state (J := Agrees F G) fun p hp st st' hst ha => ?_
  cases hst with
  | registry => exact absurd hp h
  | _ => exact ha

/-- The end of an install is about the managed filetypes of the language. -/
theorem mem_concerned (hs : Lists s F G) (hcalm : Calm G w.state) (hagrees : Agrees F G w.state)
    {ft : String} (hft : Assoc.has w.state.registry ft = true) :
    ft ∈ concerned s l' success w ↔ G ft = some l' := by
  unfold concerned
  rw [hs.filetypes, List.mem_append, List.mem_map]
  constructor
  · rintro (⟨y, hy, rfl⟩ | hlisted)
    · exact hcalm.waiting l' y hy
    · exact (hagrees ft hft l').mp hlisted
  · exact fun hG => .inr ((hagrees ft hft l').mpr hG)

/-- The end of an install settles the entries of the filetypes of the language, and nothing else
that matters. -/
theorem Calm.installed (hs : Lists s F G) (hcalm : Calm G w.state)
    (hagrees : Agrees F G w.state) {v : World σ}
    (hv : ((installed s l' success).run w).2 = v) :
    Calm G v.state ∧
      outlook l v = (outlook l w).settle G l' (findsUsable s l' success w) := by
  let Same (o : Outlook) : Prop := ∃ e, o = { outlook l w with entry := e }
  have same : Looks G l Same v := by
    rw [← hv]
    refine keeps_installed_managed (I := Looks G l Same) (blind_looks (by decide) (by decide))
      (fun ft a u hu _ _ _ => ⟨⟨hu.calm.waiting, hu.calm.heard, hu.calm.alone⟩, ?_⟩)
      (fun u hu => ⟨hu.calm.dequeue l', hu.holds⟩) success w ⟨hcalm, _, rfl⟩
    obtain ⟨e, he⟩ := hu.holds
    rw [outlook_set, he]
    exact ⟨_, rfl⟩
  obtain ⟨calm, e, he⟩ := same
  have entry : ∀ ft, e ft =
      ((outlook l w).settle G l' (findsUsable s l' success w)).entry ft := by
    intro ft
    have settled := installed_settled s l' success w ft
    rw [hv] at settled
    have found : Assoc.get? v.state.registry ft = e ft := congrArg (fun o => Outlook.entry o ft) he
    rw [← found, settled]
    show _ = if G ft = some l' then (Assoc.get? w.state.registry ft).map _
      else Assoc.get? w.state.registry ft
    by_cases hft : Assoc.has w.state.registry ft = true
    · simp only [mem_concerned hs hcalm hagrees hft]
    · have unmanaged : Assoc.get? w.state.registry ft = none := by
        simpa [Assoc.has] using hft
      rw [unmanaged, Option.map_none, ite_self, ite_self]
  refine ⟨calm, ?_⟩
  rw [he, funext entry]
  rfl

theorem leads_tell_settles (hs : Lists s F G) :
    Leads (fun w => Looks G l K w ∧ Agrees F G w.state) (tell s l' success .enablement)
      (fun _ => Looks G l fun v => ∃ u b, K u ∧ v = u.settle G l' b) E := by
  refine (leads_emit (Q := fun w => Looks G l K w ∧ Agrees F G w.state)
    fun w hw => ⟨⟨hw.1.calm, hw.1.holds⟩, hw.2⟩).bind fun _ => Leads.shielded ?_ fun _ _ hw =>
      ⟨hw.calm, hw.holds⟩
  refine leads_of_run fun w hw => ?_
  obtain ⟨calm, settled⟩ := hw.1.calm.installed (l := l) hs hw.2
    (v := ((installed s l' success).run w).2) rfl
  exact ⟨calm, _, _, hw.1.holds, settled⟩

/-- If nobody but the enablement hears about an install, telling everybody is telling it, if it
hears. -/
theorem leads_announce_heard {P Q R : World σ → Prop}
    (hP : ∀ w, P w → w.state.gateway.listeners l' = [] ∨
      w.state.gateway.listeners l' = [.enablement])
    (hnone : ∀ w, P w → w.state.gateway.listeners l' = [] →
      R { w with state := { w.state with gateway := w.state.gateway.forget l' } })
    (hforget : ∀ w, P w → w.state.gateway.listeners l' = [.enablement] →
      Q { w with state := { w.state with gateway := w.state.gateway.forget l' } })
    (htell : Leads Q (tell s l' success .enablement) (fun _ => R) E) :
    Leads P (announce s success l') (fun _ => R) E := by
  intro w hw
  rw [announce, run_bind_of_ok _ (run_state w), run_bind_of_ok _ (run_update _ w)]
  rcases hP w hw with hl | hl
  · rw [hl]
    exact hnone w hw hl
  · rw [hl]
    have told : Leads Q ([Callback.enablement].forM (tell s l' success)) (fun _ => R) E :=
      htell.bind fun _ => leads_pure fun _ hv => hv
    exact told _ (hforget w hw hl)

/-- Nobody waits for the end of the install of another language. -/
theorem leads_announce_other (hs : Lists s F G) (hl : l' ≠ l)
    (hK : ∀ v b, K v → K (v.settle G l' b)) :
    Leads (fun w => Looks G l K w ∧ Agrees F G w.state) (announce s success l')
      (fun _ => Looks G l K) E := by
  have forgotten : ∀ w : World σ, Looks G l K w →
      Looks G l K { w with state := { w.state with gateway := w.state.gateway.forget l' } } := by
    intro w hw
    refine ⟨hw.calm.forget l', ?_⟩
    rw [outlook_forget, if_neg hl]
    exact hw.holds
  refine leads_announce_heard (fun w hw => hw.1.calm.heard l') (fun w hw _ => forgotten w hw.1)
    (fun w hw _ => ⟨forgotten w hw.1, hw.2⟩) ((leads_tell_settles hs).weaken fun _ w hw => ?_)
  refine hw.mono fun v hv => ?_
  obtain ⟨u, b, hu, rfl⟩ := hv
  exact hK u b hu

/-- At the end of its install the language is decided about. -/
theorem leads_announce_own (hs : Lists s F G) :
    Leads (fun w => Looks G l (fun v => v.Closing ∧ v.listeners = [.enablement]) w ∧
        Agrees F G w.state)
      (announce s success l) (fun _ => Looks G l (Outlook.Decided G l [])) E := by
  refine leads_announce_heard
    (Q := fun w => Looks G l (fun v => v.Closing) w ∧ Agrees F G w.state)
    (fun w hw => hw.1.calm.heard l) (fun w hw hl => ?_) (fun w hw hl => ⟨⟨?_, ?_⟩, hw.2⟩)
    ((leads_tell_settles hs).weaken fun _ w hw => hw.mono fun v hv => ?_)
  · have hears : w.state.gateway.listeners l = [.enablement] := hw.1.holds.2
    rw [hl] at hears
    cases hears
  · exact hw.1.calm.forget l
  · rw [outlook_forget]
    obtain ⟨closing, -⟩ := hw.1.holds
    exact ⟨closing.initialized, closing.untasked, closing.once⟩
  · obtain ⟨u, b, hu, rfl⟩ := hv
    exact hu.settle b

/-! ## Tasks -/

/-- A language keeps to its stages, and a task is not its own. -/
def Beside (G : String → Option String) (l : String) (gone : List String) (i : TaskId)
    (v : Outlook) : Prop :=
  v.Once G l gone ∧ v.task ≠ some i

/-- A task of another language changes its phase. -/
theorem looks_phase_other {i : TaskId} {p : Phase} {f : Loop → Loop}
    (h : Looks G l (Beside G l gone i) w)
    (hf : ∀ id, (f w.state.loop).tasks[id]? =
      if i = id then (w.state.loop.tasks[id]?).map fun t => { t with phase := p }
      else w.state.loop.tasks[id]?) :
    Looks G l (Outlook.Once G l gone) (w.onLoop f) := by
  refine h.onLoop (Loop.languages_of_phase hf) fun v hv hphase =>
    hv.1.of_phase fun id p hid hp => ?_
  have hne : i ≠ id := fun e => hv.2 (e ▸ hid)
  refine ⟨p, ?_, fun hq => hq⟩
  rw [hf, if_neg hne, ← hp, hphase]
  rfl

/-- The task of another language ends. -/
theorem leads_conclude_beside (hs : Lists s F G) (hl : l' ≠ l) {i : TaskId}
    (answer : Except Fault Value) :
    Leads (fun w => Looks G l (Beside G l gone i) w ∧ Agrees F G w.state)
      (conclude s i [l'] answer) (fun _ => Looks G l (Outlook.Once G l gone)) E := by
  refine leads_conclude (Q := fun w => Looks G l (Beside G l gone i) w ∧ Agrees F G w.state)
    (T := fun _ => Looks G l (Beside G l gone i)) ?_ (fun w hw => ⟨?_, hw.2⟩) (fun b => ?_)
    fun b w hw => looks_phase_other hw fun id => Loop.finish_task _ _ _ _
  · exact (blind_looks (by decide) (by decide)).and (blind_agrees (by simp))
  · refine looks_unassign hw.1 fun v hv => ?_
    rw [if_neg fun hm => hl (List.mem_singleton.mp hm).symm]
    exact hv
  · exact (leads_announce_other hs hl fun v b hv => ⟨hv.1.settle_other hl b, hv.2⟩).bind fun _ =>
      leads_pure fun _ hw => hw

/-- A task of another language advances. -/
theorem leads_advance_beside (hs : Lists s F G) (hl : l' ≠ l) {i : TaskId} {t : Task}
    (ht : t.languages = [l']) (hc : t.cancelRequested = false) :
    Leads (fun w => (Looks G l (Beside G l gone i) w ∧ Agrees F G w.state) ∧ HasTask i t w)
      (advance s i) (fun _ => Looks G l (Outlook.Once G l gone)) E := by
  have uncalled : l ∉ t.languages := by
    rw [ht, List.mem_singleton]
    exact hl.symm
  refine leads_advance (C := fun w => Looks G l (Beside G l gone i) w ∧ Agrees F G w.state)
    (fun _ hw => hw.2) (fun _ w hw => ⟨⟨hw.1.1.calm, ?_⟩, hw.1.2⟩)
    (fun _ ticket w hw => looks_phase_other hw.1 fun id => Loop.setPhase_task _ _ _ _)
    (fun ticket _ w hw => ⟨⟨hw.1.1.calm, hw.1.1.holds⟩, hw.1.2⟩) (fun answer => ?_)
    (fun hcancel => by rw [hc] at hcancel; cases hcancel)
    fun _ _ w hw => hw.1.1.mono fun v hv => hv.1
  · have same : outlook l (afterCall s (.install t.languages) w) = outlook l w := by
      refine Outlook.ext rfl rfl rfl rfl rfl ?_
      show (callsWith l (.asked (.install t.languages) :: w.trace)).length = _
      rw [callsWith_install, if_neg uncalled]
      rfl
    rw [same]
    exact hw.1.1.holds
  · rw [ht]
    exact leads_conclude_beside hs hl answer

/-- The language is being installed by a task. -/
def Installing (G : String → Option String) (l : String) (gone : List String) (i : TaskId)
    (v : Outlook) : Prop :=
  gone = [] ∧ v.Underway G l i

/-- The task of the language ends. -/
theorem leads_conclude_own (hs : Lists s F G) {i : TaskId} (answer : Except Fault Value) :
    Leads (fun w => Looks G l (Installing G l gone i) w ∧ Agrees F G w.state)
      (conclude s i [l] answer) (fun _ => Looks G l (Outlook.Once G l gone)) E := by
  refine leads_conclude
    (Q := fun w => gone = [] ∧ Looks G l (fun v => v.Closing ∧ v.listeners = [.enablement]) w ∧
      Agrees F G w.state)
    (T := fun _ w => gone = [] ∧ Looks G l (Outlook.Decided G l []) w) ?_
    (fun w hw => ⟨hw.1.holds.1, ?_, hw.2⟩) (fun b => Leads.assume fun hg => ?_) fun b w hw => ?_
  · exact (blind_looks (by decide) (by decide)).and (blind_agrees (by simp))
  · refine looks_unassign hw.1 fun v hv => ⟨⟨hv.2.initialized, ?_, hv.2.once⟩, hv.2.heard⟩
    exact if_pos (List.mem_singleton_self l)
  · exact (leads_announce_own hs).bind fun _ => leads_pure fun _ hw => ⟨hg, hw⟩
  · obtain ⟨rfl, hw⟩ := hw
    refine hw.onLoop (Loop.languages_of_phase fun id => Loop.finish_task _ _ _ _) fun v hv _ => ?_
    exact .decided ⟨hv.initialized, hv.untasked, hv.once, hv.known, hv.gone⟩

/-- The task of the language advances. -/
theorem leads_advance_own (hs : Lists s F G) {i : TaskId} {t : Task} (ht : t.languages = [l])
    (hc : t.cancelRequested = false) :
    Leads (fun w => (Looks G l (fun v => v.Once G l gone ∧
        (t.phase.isOver = false → v.task = some i)) w ∧ Agrees F G w.state) ∧ HasTask i t w)
      (advance s i) (fun _ => Looks G l (Outlook.Once G l gone)) E := by
  -- a task in flight is the one that installs the language
  have installing : ∀ (w : World σ) (v : Outlook), v.Once G l gone → v.task = some i →
      v.phase = (outlook l w).phase → HasTask i t w →
      Installing G l gone i v ∧ (t.phase = .queued → v.calls = 0) := by
    intro w v hv htask hphase hw
    cases hv with
    | idle _ h =>
      rw [h.untasked] at htask
      cases htask
    | underway id p hg h hp hq =>
      obtain rfl := Option.some.inj (h.task.symm.trans htask)
      have own : (outlook l w).phase id = some t.phase := congrArg (Option.map Task.phase) hw
      obtain rfl := Option.some.inj (own.symm.trans (hphase ▸ hp))
      exact ⟨⟨hg, h⟩, hq⟩
    | decided h =>
      rw [h.untasked] at htask
      cases htask
  refine leads_advance (C := fun w => (Looks G l (Installing G l gone i) w ∧ Agrees F G w.state) ∧
      HasTask i t w) (fun _ hw => hw.2) (fun hq w hw => ?_) (fun _ ticket w hw => ?_)
    (fun ticket hp w hw => ?_) (fun answer => ?_)
    (fun hcancel => by rw [hc] at hcancel; cases hcancel)
    fun _ _ w hw => hw.1.1.mono fun v hv => hv.1
  · obtain ⟨⟨⟨calm, once, htask⟩, agrees⟩, hw⟩ := hw
    obtain ⟨⟨hg, h⟩, hcalls⟩ := installing w _ once (htask (by rw [hq]; rfl)) rfl hw
    refine ⟨⟨⟨calm, hg, h.initialized, h.task, h.heard, ?_, h.spared⟩, agrees⟩, hw⟩
    show (callsWith l (.asked (.install t.languages) :: w.trace)).length ≤ 1
    rw [callsWith_install, if_pos (by rw [ht]; exact List.mem_singleton_self l), List.length_cons]
    exact Nat.succ_le_succ (Nat.le_of_eq (hcalls hq))
  · obtain ⟨⟨looks, -⟩, hw⟩ := hw
    refine looks.onLoop (Loop.languages_of_phase fun id => Loop.setPhase_task _ _ _ _)
      fun v hv _ => ?_
    obtain ⟨hg, h⟩ := hv
    refine .underway i (.awaiting ticket false) hg
      ⟨h.initialized, h.task, h.heard, h.once, h.spared⟩ ?_ nofun
    dsimp only
    rw [Loop.setPhase_task, if_pos rfl, show w.state.loop.tasks[i]? = some t from hw]
    rfl
  · obtain ⟨⟨⟨calm, once, htask⟩, agrees⟩, hw⟩ := hw
    obtain ⟨h, -⟩ := installing w _ once (htask (by rw [hp]; rfl)) rfl hw
    exact ⟨⟨⟨calm, h⟩, agrees⟩, hw⟩
  · rw [ht]
    exact (leads_conclude_own hs answer).mono (fun _ hw => hw.1) (fun _ _ hw => hw) fun _ hw => hw

/-- A task that advances keeps to the stages. -/
theorem leads_advance_once {R : List String → Prop} (hs : Lists s F G) (i : TaskId) :
    Leads (fun w => (Looks G l (Outlook.Once G l gone) w ∧ Agrees F G w.state) ∧ Sound R none w)
      (advance s i) (fun _ => Looks G l (Outlook.Once G l gone)) E := by
  refine leads_advance_of (fun _ h _ => h.1.1) fun t w hw => ?_
  obtain ⟨⟨⟨looks, agrees⟩, sound⟩, ht⟩ := hw
  have uncancelled := sound.state.uncancelled i t ht
  obtain ⟨l', hl'⟩ := looks.calm.alone i t ht
  by_cases e : l' = l
  · subst e
    refine leads_advance_own hs hl' uncancelled w
      ⟨⟨⟨looks.calm, looks.holds, fun ho => ?_⟩, agrees⟩, ht⟩
    refine (sound.state.mem_languages ⟨ht, ho⟩).mp ?_
    rw [hl']
    exact List.mem_singleton_self l'
  · refine leads_advance_beside hs e hl' uncancelled w
      ⟨⟨⟨looks.calm, looks.holds, fun hi => e ?_⟩, agrees⟩, ht⟩
    obtain ⟨u, hu, -, hl⟩ := (sound.state.pending l i).mp hi
    obtain rfl := Option.some.inj (ht.symm.trans hu.1)
    rw [hl', List.mem_singleton] at hl
    exact hl.symm

/-! ## Steps -/

/-- A step that requests no installs but on demand, for documents that attach, and asks no task to
stop. -/
def OnDemand : Step σ → Prop
  | .call _ .installAll | .call _ (.request _ _) | .cancel _ => False
  | .call _ _ | .work _ | .answer _ | .wait _ | .meanwhile _ => True

theorem OnDemand.ne_cancel {y : Step σ} (hy : OnDemand y) (id : TaskId) : y ≠ .cancel id := by
  rintro rfl
  exact hy

/-- Only documents that attach ask for languages. -/
theorem OnDemand.not_asks {b : Bool} {o : Operation} (h : OnDemand (.call b o : Step σ))
    (ho : ¬ o.Attaches) (languages : List String) : ¬ o.Asks s w languages := by
  cases o with
  | attach _ _ | filetypeEvent _ _ => exact absurd trivial ho
  | installAll | request _ _ => exact h.elim
  | _ => exact id

/-- Every step keeps to the stages, if installs are requested on demand only. -/
theorem exec_once {R : List String → Prop} (hs : Lists s F G) {y : Step σ} (hy : OnDemand y)
    (sound : Sound R none w) (agrees : Agrees F G w.state)
    (h : Looks G l (Outlook.Once G l gone) w) :
    Looks G l (Outlook.Once G l gone) (exec s y w) := by
  have running : ∀ (v : World σ) (b : Bool), Looks G l (Outlook.Once G l gone) v →
      Looks G l (Outlook.Once G l gone) (v.setRunning b) := fun v b hv =>
    ⟨⟨hv.calm.waiting, hv.calm.heard, hv.calm.alone⟩, hv.holds⟩
  cases y with
  | call b o =>
    refine exec_call_of running (perform_keeps_by (blind_looks (by decide) (by decide))
      keeps_prepare_once (fun _ => keeps_attach_once hs) (fun ho languages callback hasks => ?_)
      (running w b h))
    exact absurd hasks (hy.not_asks ho languages)
  | work j =>
    have blind : Blind s [.waits, .queue] [] fun v : World σ =>
        (Looks G l (Outlook.Once G l gone) v ∧ Agrees F G v.state) ∧ Sound R none v :=
      ((blind_looks (by decide) (by decide)).and (blind_agrees (by simp))).and
        (blind_sound (by simp) (by simp) (by simp))
    have worked : Leads (fun v : World σ =>
        (Looks G l (Outlook.Once G l gone) v ∧ Agrees F G v.state) ∧ Sound R none v) (work s j)
        (fun _ => Looks G l (Outlook.Once G l gone)) (Looks G l (Outlook.Once G l gone)) :=
      leads_work blind (fun _ hv => hv.1.1) fun i _ => leads_advance_once hs i
    refine exec_work_of running h (worked.run ⟨⟨?_, agrees⟩, sound.congr rfl rfl⟩)
    exact ⟨⟨h.calm.waiting, h.calm.heard, h.calm.alone⟩, h.holds⟩
  | answer ticket =>
    refine h.onLoop (f := fun lp => lp.answer ticket) (Loop.languages_answer w.state.loop ticket)
      fun v hv hphase => ?_
    refine hv.of_phase fun id p _ hp => ?_
    rw [hphase] at hp
    obtain ⟨t, ht, rfl⟩ := Option.map_eq_some_iff.mp hp
    obtain ⟨t', ht', hcases⟩ := Loop.answer_task w.state.loop ticket ht
    refine ⟨t'.phase, by rw [ht']; rfl, ?_⟩
    rcases hcases with rfl | ⟨b, -, rfl⟩
    · exact fun hq => hq
    · exact nofun
  | cancel id => exact hy.elim
  | wait language => exact ⟨⟨h.calm.waiting, h.calm.heard, h.calm.alone⟩, h.holds⟩
  | meanwhile f => exact ⟨h.calm, h.holds⟩

/-! ## Runs -/

/-- A run keeps to the stages. -/
theorem run_once {R : List String → Prop} (hs : Lists s F G) {steps : List (Step σ)}
    (hsteps : ∀ y ∈ steps, OnDemand y) (sound : Sound R none w)
    (hagrees : ∀ m, m <+: steps → Agrees F G (run s m w).state)
    (h : Looks G l (Outlook.Once G l gone) w) :
    Looks G l (Outlook.Once G l gone) (run s steps w) := by
  induction steps generalizing w R with
  | nil => exact h
  | cons y rest ih =>
    have hy := hsteps y List.mem_cons_self
    have agrees : Agrees F G w.state := hagrees [] List.nil_prefix
    have sound' := exec_sound (s := s) (R := fun _ => True) hy.ne_cancel (fun _ _ => trivial)
      (sound.mono fun _ _ => trivial)
    refine ih (fun z hz => hsteps z (List.mem_cons_of_mem y hz)) sound' (fun m hm => ?_)
      (exec_once hs hy sound agrees h)
    exact hagrees (y :: m) (List.cons_prefix_cons.mpr ⟨rfl, hm⟩)

theorem looks_initial (hw : Initial w) : Looks G l (Outlook.Once G l []) w := by
  refine ⟨⟨?_, ?_, ?_⟩, .idle rfl ⟨?_, ?_, ?_, ?_⟩⟩
  · rw [hw.state]
    nofun
  · rw [hw.state]
    exact fun _ => .inl rfl
  · rw [hw.state]
    nofun
  · intro _ ft
    show Assoc.get? w.state.registry ft = none
    rw [hw.state]
    rfl
  · show Assoc.get? w.state.gateway.pending l = none
    rw [hw.state]
    rfl
  · show (callsWith l w.trace).length = 0
    rw [hw.trace]
    rfl
  · intro ft _
    show Assoc.get? w.state.registry ft ≠ _
    rw [hw.state]
    nofun

/-- A filetype that is unavailable has a language. -/
theorem exists_language_of_unavailable (hs : Lists s F G) (hw : Initial w) (steps : List (Step σ))
    {ft : String} (hagrees : Agrees F G (run s steps w).state)
    (hft : Assoc.get? (run s steps w).state.registry ft = some .unavailable) :
    ∃ l, G ft = some l := by
  have managed : Assoc.has (run s steps w).state.registry ft = true := by
    rw [Assoc.has, hft]
    rfl
  have backed : Backed G ft (chronicle s steps w []) (run s steps w).state :=
    chronicle_induction (K := fun h w => Backed G ft h w.state)
      (fun x _ h w hb => exec_backed hs (fun l hl => (hagrees ft managed l).mp hl) x hb)
      (backed_initial hw)
  obtain ⟨l, hl, -⟩ := backed.deserved .unavailable hft
  exact ⟨l, hl⟩

/-- **On demand a language is installed once at most.** In any run in which installs are requested
only for documents that attach, and no task is asked to stop: if what the editor lists does not
change, and lists each managed filetype under its language and no other one, then every language is
in at most one call of the installer, and a filetype that has become unavailable stays so. -/
theorem installed_once (hs : Lists s F G) {w₀ : World σ} (hw : Initial w₀)
    {steps : List (Step σ)} (hsteps : ∀ y ∈ steps, OnDemand y) {v : World σ}
    (hrun : run s steps w₀ = v) (hagrees : Agrees F G v.state) :
    (∀ l, (callsWith l v.trace).length ≤ 1) ∧
    ∀ m k, m ++ k <+: steps → ∀ ft,
      Assoc.get? (run s m w₀).state.registry ft = some .unavailable →
      Assoc.get? (run s (m ++ k) w₀).state.registry ft = some .unavailable := by
  have agrees : ∀ m, m <+: steps → Agrees F G (run s m w₀).state := by
    rintro m ⟨k, rfl⟩ ft hft
    refine hagrees ft ?_
    rw [← hrun, run_append]
    exact run_induction (I := Managed ft) (fun x _ _ hw => exec_managed x hw) hft
  have initial : Sound (fun _ => True) none w₀ := sound_initial hw
  have once : ∀ l m, m <+: steps → Looks G l (Outlook.Once G l []) (run s m w₀) := fun l m hm =>
    run_once hs (fun y hy => hsteps y (hm.subset hy)) initial (fun k hk => agrees k (hk.trans hm))
      (looks_initial hw)
  refine ⟨fun l => ?_, fun m k hmk ft hft => ?_⟩
  · have looks := once l steps List.prefix_rfl
    rw [hrun] at looks
    exact looks.holds.once
  · have hm : m <+: steps := (List.prefix_append m k).trans hmk
    obtain ⟨l, hG⟩ := exists_language_of_unavailable hs hw m (agrees m hm) hft
    have looks := once l m hm
    have marked : Looks G l (Outlook.Once G l [ft]) (run s m w₀) :=
      ⟨looks.calm, looks.holds.mark hG hft⟩
    have sound : Sound (fun _ => True) none (run s m w₀) :=
      initial.run fun id hid => (hsteps _ (hm.subset hid)).ne_cancel id rfl
    rw [run_append]
    refine (run_once hs (fun y hy => ?_) sound (fun j hj => ?_) marked).holds.marked
    · exact hsteps y (hmk.subset (List.mem_append_right m hy))
    · rw [← run_append]
      exact agrees (m ++ j) (((List.prefix_append_right_inj m).mpr hj).trans hmk)

/-- A document of lua attaches, while the loop runs or not. -/
def attachLua (isRunning : Bool) (document : Nat) : Step Unit :=
  .call isRunning (.attach (some (.number document)) (some "lua"))

/-- The install of lua fails, after the document that it was begun for was dropped from those that
wait: another one attached while the loop did not run. -/
def failing : List (Step Unit) := [attachLua true 1, attachLua false 2, .work (.task 0)]

/-- Lua is unavailable then, and stays so when a document attaches again. -/
theorem installed_once_failing :
    (callsWith "lua" (run bareEditor (failing ++ [attachLua true 1]) bareWorld).trace).length ≤ 1 ∧
      Assoc.get? (run bareEditor (failing ++ [attachLua true 1]) bareWorld).state.registry "lua" =
        some .unavailable := by
  have lists : Lists bareEditor (fun l => [l]) some := ⟨fun _ _ => rfl, fun _ _ => rfl⟩
  have initial : Initial bareWorld := ⟨rfl, rfl⟩
  have agrees : Agrees (fun l => [l]) some
      (run bareEditor (failing ++ [attachLua true 1]) bareWorld).state := fun ft _ l => by simp
  have onDemand : ∀ y ∈ failing ++ [attachLua true 1], OnDemand y := by
    simp [failing, attachLua, OnDemand]
  have unavailable : Assoc.get? (run bareEditor failing bareWorld).state.registry "lua" =
      some .unavailable := by decide +kernel
  obtain ⟨once, stays⟩ := installed_once lists initial onDemand rfl agrees
  exact ⟨once "lua", stays failing [attachLua true 1] List.prefix_rfl "lua" unavailable⟩

end TreeFeatures.Enablement
