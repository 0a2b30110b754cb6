import TreeFeatures.Proofs.Install.SingleFlight
import TreeFeatures.Proofs.Chronicle

/-!
# Tasks that are asked to stop

A task that is asked to stop while it awaits the installer gives its languages back when its turn
comes, like one that ends. A task that is asked to stop before it began never does: it is over
without having taken its languages from those that are pending, and nobody else ever does.

* `StoppedEarly`: somebody asked a task to stop before it began. `Tended` is the invariant: the
  pending languages are those of the tasks in flight and of the tasks that were stopped early.
* `exec_tended`: every step keeps it, asking a task to stop included; `run_tended`: so does a run.
* `exec_stranded`: no step frees a language of a task that was stopped early, and none calls the
  installer with it.
* `leads_dispatch_takenUp`: a request for any other language leaves it to a task in flight.
* `stopped_installs`: the result; `language_stranded` is a run that strands a language.
-/

namespace TreeFeatures.Install

open Act

/-- What is known of a task, given which tasks were asked to stop before they began. -/
structure Fits (early : TaskId → Prop) (id : TaskId) (t : Task) : Prop where
  stopping : early id → t.cancelRequested = true ∧ (t.phase = .queued ∨ t.phase = .cancelled)
  early : t.phase = .queued → t.cancelRequested = true → early id

/-- The pending languages are those of the tasks that are not over and of the tasks that were asked
to stop before they began, a task that is just ending aside. -/
structure Tended (early : TaskId → Prop) (gone : Option TaskId) (st : State) : Prop where
  held : Held (fun id t => (t.phase.isOver = false ∨ early id) ∧ gone ≠ some id) st
  fits : ∀ (id : TaskId) (t : Task), st.loop.tasks[id]? = some t → Fits early id t
  early_lt : ∀ id, early id → id < st.loop.tasks.length
  gone_lt : ∀ id, gone = some id → id < st.loop.tasks.length

variable {early early' : TaskId → Prop} {gone gone' : Option TaskId} {st st' : State}
  {id : TaskId} {t : Task} {l : String}

theorem Fits.not_early (h : Fits early id t) (hc : t.cancelRequested = false) : ¬ early id := by
  intro he
  rw [(h.stopping he).1] at hc
  cases hc

/-- A task that was asked to stop while it awaited the installer had begun before. -/
theorem Fits.not_early_of_awaiting (h : Fits early id t) {ticket : Nat} {b : Bool}
    (hp : t.phase = .awaiting ticket b) : ¬ early id := by
  intro he
  rcases (h.stopping he).2 with hq | hq <;> rw [hq] at hp <;> cases hp

/-- A task that has begun, or is over, and was not stopped early. -/
theorem Fits.of_not_early (he : ¬ early id) (hp : t.phase ≠ .queued) : Fits early id t :=
  ⟨fun h => absurd h he, fun h => absurd h hp⟩

namespace Tended

/-- Only the pending languages and the tasks matter. -/
theorem congr (h : Tended early gone st) (hp : st'.gateway.pending = st.gateway.pending)
    (ht : st'.loop.tasks = st.loop.tasks) : Tended early gone st' := by
  obtain ⟨h₁, h₂, h₃, h₄⟩ := h
  unfold Held at h₁
  rw [← ht] at h₁ h₂ h₃ h₄
  rw [← hp] at h₁
  exact ⟨h₁, h₂, h₃, h₄⟩

theorem of_iff (h : Tended early gone st) (he : ∀ id, early id ↔ early' id) :
    Tended early' gone st := by
  have : early = early' := funext fun id => propext (he id)
  exact this ▸ h

/-- The rule for a change of the tasks, one task at a time. -/
theorem retask (h : Tended early gone st) {lp : Loop}
    (hlength : lp.tasks.length = st.loop.tasks.length)
    (hearly : ∀ id, early' id → id < st.loop.tasks.length)
    (hgone : ∀ id, gone' = some id → id < st.loop.tasks.length)
    (htask : ∀ (id : TaskId) (t : Task), st.loop.tasks[id]? = some t → ∃ t' : Task,
      lp.tasks[id]? = some t' ∧ t'.languages = t.languages ∧
        ((t'.phase.isOver = false ∨ early' id) ∧ gone' ≠ some id ↔
          (t.phase.isOver = false ∨ early id) ∧ gone ≠ some id) ∧ Fits early' id t') :
    Tended early' gone' { st with loop := lp } := by
  refine ⟨h.held.retask hlength fun id t ht => ?_, fun id t' ht' => ?_, ?_, ?_⟩
  · obtain ⟨t', ht', hlanguages, hiff, -⟩ := htask id t ht
    exact ⟨t', ht', hlanguages, hiff⟩
  · obtain ⟨t, -, -, -, hfits⟩ := Loop.task_back hlength htask ht'
    exact hfits
  · exact hlength ▸ hearly
  · exact hlength ▸ hgone

theorem accept (h : Tended early gone st) (wanted : List String) (callback : Option Callback) :
    Tended early gone (Gateway.accept st wanted callback) := by
  have longer := Gateway.accept_length_le st wanted callback
  refine ⟨h.held.accept callback ⟨.inl rfl, fun hg => ?_⟩, fun id t ht => ?_, fun id he => ?_,
    fun id hg => ?_⟩
  · exact absurd (h.gone_lt _ hg) (Nat.lt_irrefl _)
  · rcases Gateway.accept_task_cases st _ callback ht with hold | ⟨rfl, -, rfl⟩
    · exact h.fits id t hold
    · exact ⟨fun he => absurd (h.early_lt _ he) (Nat.lt_irrefl _), fun _ hc => nomatch hc⟩
  · exact Nat.lt_of_lt_of_le (h.early_lt id he) longer
  · exact Nat.lt_of_lt_of_le (h.gone_lt id hg) longer

/-- A task that ends takes its languages, and no others, from those that are pending. -/
theorem unassign (h : Tended early none st) (ht : InFlight st id t) :
    Tended early (some id) { st with gateway := st.gateway.unassign t.languages } := by
  refine ⟨fun l id' => ?_, h.fits, h.early_lt, ?_⟩
  · refine (h.held.unassign ht.1 ⟨.inl ht.2, nofun⟩ l id').trans ?_
    simp [and_comm]
  · rintro id' ⟨⟩
    exact (List.getElem?_eq_some_iff.mp ht.1).1

/-- The end of a task that began. -/
theorem finish (h : Tended early (some id) st) (he : ¬ early id) {p : Phase}
    (hp : p.isOver = true) : Tended early none { st with loop := st.loop.finish id p } := by
  refine h.retask (Loop.finish_length _ _ _) h.early_lt nofun fun id' t ht => ?_
  have ht' := Loop.finish_task st.loop id id' p
  rw [ht] at ht'
  by_cases hid : id = id'
  · subst hid
    rw [if_pos rfl] at ht'
    refine ⟨_, ht', rfl, by simp [hp, he], .of_not_early he fun hq => ?_⟩
    rw [show p = .queued from hq] at hp
    cases hp
  · rw [if_neg hid] at ht'
    exact ⟨t, ht', rfl, by simp [hid], h.fits id' t ht⟩

/-- The end of a task that was asked to stop before it began: its languages stay pending. -/
theorem finish_early (h : Tended early none st) (ht : st.loop.tasks[id]? = some t)
    (hp : t.phase = .queued) (hc : t.cancelRequested = true) :
    Tended early none { st with loop := st.loop.finish id .cancelled } := by
  refine h.retask (Loop.finish_length _ _ _) h.early_lt nofun fun id' u hu => ?_
  have hu' := Loop.finish_task st.loop id id' .cancelled
  rw [hu] at hu'
  by_cases hid : id = id'
  · subst hid
    obtain rfl := Option.some.inj (ht.symm.trans hu)
    have he := (h.fits id t ht).early hp hc
    rw [if_pos rfl] at hu'
    exact ⟨_, hu', rfl, by simp [he], fun _ => ⟨hc, .inr rfl⟩, nofun⟩
  · rw [if_neg hid] at hu'
    exact ⟨u, hu', rfl, Iff.rfl, h.fits id' u hu⟩

/-- A task that begins to wait. -/
theorem setPhase (h : Tended early gone st) (ht : InFlight st id t) (he : ¬ early id)
    (ticket : Nat) (b : Bool) :
    Tended early gone { st with loop := st.loop.setPhase id (.awaiting ticket b) } := by
  refine h.retask (List.length_modify _ _ _) h.early_lt h.gone_lt fun id' u hu => ?_
  have hu' := Loop.setPhase_task st.loop id id' (.awaiting ticket b)
  rw [hu] at hu'
  by_cases hid : id = id'
  · subst hid
    obtain rfl := Option.some.inj (ht.1.symm.trans hu)
    rw [if_pos rfl] at hu'
    refine ⟨_, hu', rfl, ?_, .of_not_early he nofun⟩
    exact ⟨fun h => ⟨.inl ht.2, h.2⟩, fun h => ⟨.inl rfl, h.2⟩⟩
  · rw [if_neg hid] at hu'
    exact ⟨u, hu', rfl, Iff.rfl, h.fits id' u hu⟩

theorem answer (h : Tended early gone st) (ticket : Nat) :
    Tended early gone { st with loop := st.loop.answer ticket } := by
  refine h.retask (Loop.answer_length _ _) h.early_lt h.gone_lt fun id t ht => ?_
  obtain ⟨t', ht', rfl | ⟨b, hb, rfl⟩⟩ := Loop.answer_task st.loop ticket ht
  · exact ⟨_, ht', rfl, Iff.rfl, h.fits id _ ht⟩
  · exact ⟨_, ht', rfl, by simp [hb, Phase.isOver],
      .of_not_early ((h.fits id t ht).not_early_of_awaiting hb) nofun⟩

/-- Asking a task to stop: it was stopped early if it had not begun. -/
theorem cancel (h : Tended early none st) (i : TaskId) :
    Tended
      (fun id => early id ∨ id = i ∧ ∃ t, st.loop.tasks[id]? = some t ∧ t.phase = .queued)
      none { st with loop := (st.loop.cancel i).1 } := by
  refine h.retask (st.loop.cancel_length i) ?_ nofun fun id t ht => ?_
  · rintro id (he | ⟨-, t, ht, -⟩)
    · exact h.early_lt id he
    · exact (List.getElem?_eq_some_iff.mp ht).1
  have fits := h.fits id t ht
  have ht' := st.loop.cancel_task i id
  rw [ht] at ht'
  by_cases hi : i = id
  · subst hi
    rw [if_pos rfl] at ht'
    refine ⟨_, ht', t.stopping_languages, ?_, ?_⟩
    · rw [t.stopping_isOver]
      constructor
      · rintro ⟨ho | he | ⟨-, u, hu, hq⟩, hg⟩
        · exact ⟨.inl ho, hg⟩
        · exact ⟨.inr he, hg⟩
        · obtain rfl := Option.some.inj (ht.symm.trans hu)
          exact ⟨.inl (by rw [hq]; rfl), hg⟩
      · exact fun ⟨ho, hg⟩ => ⟨ho.imp_right .inl, hg⟩
    by_cases hq : t.phase = .queued
    · rw [Task.stopping_of_queued hq]
      exact ⟨fun _ => ⟨rfl, .inl hq⟩, fun _ _ => .inr ⟨rfl, t, ht, hq⟩⟩
    · constructor
      · rintro (he | ⟨-, u, hu, hq'⟩)
        · have hover := (fits.stopping he).2.resolve_left hq
          rw [Task.stopping_of_isOver (by rw [hover]; rfl)]
          exact fits.stopping he
        · obtain rfl := Option.some.inj (ht.symm.trans hu)
          exact absurd hq' hq
      · exact fun hs => absurd (Task.queued_of_stopping hs) hq
  · rw [if_neg hi] at ht'
    have hne : ¬ id = i := fun e => hi e.symm
    refine ⟨t, ht', rfl, by simp [hne], fun he => ?_, fun hq hc => .inl (fits.early hq hc)⟩
    exact fits.stopping (he.resolve_right fun hi => hne hi.1)

/-- A task that is not over and nobody stopped early has its languages pending. -/
theorem mem_languages (h : Tended early none st) (ht : st.loop.tasks[id]? = some t)
    (ho : t.phase.isOver = false ∨ early id) :
    l ∈ t.languages ↔ Assoc.get? st.gateway.pending l = some id :=
  h.held.mem_languages ht ⟨ho, nofun⟩

end Tended

/-! ## Steps -/

variable {σ : Type} {s : Surroundings σ} {E : World σ → Prop}

theorem blind_tended {parts : List Part} {areas : List Area} (hpending : Part.pending ∉ parts)
    (htasks : Part.tasks ∉ parts) :
    Blind s parts areas fun w => Tended early gone w.state := by
  refine Blind.of_state (J := Tended early gone) fun p hp st st' hst h => ?_
  cases hst with
  | pending => exact absurd hp hpending
  | tasks => exact absurd hp htasks
  | _ => exact h.congr rfl rfl

theorem tended_dispatch (languages : List String) (callback : Option Callback) :
    Keeps (fun w => Tended early gone w.state) (Gateway.dispatch s languages callback) :=
  Gateway.keeps_dispatch_of (blind_tended (by simp) (by simp)) fun _ h _ => h.accept _ callback

theorem tended_unheard (l : String) : Unheard s l fun w => Tended early gone w.state where
  blind := blind_tended (by simp) (by simp)
  dequeue _ h := h.congr rfl rfl
  forget _ h := h.congr rfl rfl
  told _ _ _ h := h
  requested _ _ _ h := h
  dispatch r _ := tended_dispatch r.languages r.callback

/-- A task that ends. -/
theorem tended_conclude (he : ¬ early id) (answer : Except Fault Value) :
    Leads (fun w => Tended early none w.state ∧ InFlight w.state id t)
      (conclude s id t.languages answer) (fun _ w => Tended early none w.state) E := by
  refine leads_conclude (Q := fun w => Tended early (some id) w.state)
    (T := fun _ w => Tended early (some id) w.state) ?_ ?_ ?_ ?_
  · refine (blind_tended (by simp) (by simp)).and ?_
    refine Blind.of_state (J := fun st => InFlight st id t) fun p hp st st' hst h => ?_
    cases hst <;> first | exact h | simp at hp
  · exact fun w h => h.1.unassign h.2
  · exact fun b => leads_announceAll fun l _ => (tended_unheard l).withstands b
  · exact fun b w h => h.finish he rfl

/-- A task that advances. -/
theorem tended_advance (id : TaskId) :
    Leads (fun w => Tended early none w.state) (advance s id)
      (fun _ w => Tended early none w.state) E := by
  refine leads_advance_of (fun _ h _ => h) fun t w hw => ?_
  have fits := hw.1.fits id t hw.2
  cases hc : t.cancelRequested with
  | false =>
    have he := fits.not_early hc
    refine leads_advance_going (P := fun w => Tended early none w.state ∧ HasTask id t w)
      (C := fun w => Tended early none w.state ∧ InFlight w.state id t) (fun w h => h.2) hc
      (fun hp w h => ⟨h.1, h.2, by rw [hp]; rfl⟩) (fun hp ticket w h => ?_)
      (fun ticket hp w h => ⟨h.1, h.2, by rw [hp]; rfl⟩) (tended_conclude he)
      (fun _ _ w h => h.1) w hw
    exact h.1.setPhase h.2 he ticket false
  | true =>
    refine leads_advance_stopped (P := fun w => Tended early none w.state ∧ HasTask id t w)
      (fun w h => h.2) hc (fun hp w h => ?_) (fun ticket hp w h => ?_) (fun _ _ w h => h.1) w hw
    · exact h.1.finish_early h.2 hp hc
    · have unassigned := h.1.unassign ⟨h.2, by rw [hp]; rfl⟩
      exact unassigned.finish (fits.not_early_of_awaiting hp) rfl

/-- A step asks a task to stop that has not begun. -/
def StopsEarly (x : Step σ) (w : World σ) (id : TaskId) : Prop :=
  x = .cancel id ∧ ∃ t, HasTask id t w ∧ t.phase = .queued

/-- Every step keeps the invariant. -/
theorem exec_tended (x : Step σ) {w : World σ} (h : Tended early none w.state) :
    Tended (fun id => early id ∨ StopsEarly x w id) none (exec s x w).state := by
  have same : (∀ id, x ≠ .cancel id) → Tended early none (exec s x w).state →
      Tended (fun id => early id ∨ StopsEarly x w id) none (exec s x w).state :=
    fun hx h' => h'.of_iff fun id => (or_iff_left fun hs => hx id hs.1).symm
  have hr : ∀ (v : World σ) (b : Bool), Tended early none v.state →
      Tended early none (v.setRunning b).state := fun v b h => h.congr rfl rfl
  cases x with
  | call b o =>
    refine same (fun _ => nofun) (exec_call_of (I := fun v => Tended early none v.state) hr ?_)
    exact perform_keeps_of_dispatch (blind_tended (by simp) (by simp))
      (fun languages callback _ => tended_dispatch languages callback) (hr w b h)
  | work j =>
    refine same (fun _ => nofun)
      (exec_work_of (I := fun v => Tended early none v.state) hr h ?_)
    have worked : Leads (fun v => Tended early none v.state) (work s j)
        (fun _ v => Tended early none v.state) fun v => Tended early none v.state :=
      leads_work (blind_tended (by simp) (by simp)) (fun _ h => h) fun id _ => tended_advance id
    exact worked.run (h.congr rfl rfl)
  | answer ticket => exact same (fun _ => nofun) (h.answer ticket)
  | cancel i =>
    refine (h.cancel i).of_iff fun id => or_congr_right ?_
    constructor
    · rintro ⟨rfl, t, ht, hq⟩
      exact ⟨rfl, t, ht, hq⟩
    · rintro ⟨e, t, ht, hq⟩
      cases e
      exact ⟨rfl, t, ht, hq⟩
  | wait language => exact same (fun _ => nofun) (h.congr rfl rfl)
  | meanwhile f => exact same (fun _ => nofun) h

/-! ## A language of a task that was stopped early -/

variable {c : List (List String)}

/-- No job touches a task that was asked to stop before it began, but to end it. -/
theorem leads_work_stranded (he : early id) (hl : l ∈ t.languages)
    (stopped : t.cancelRequested = true ∧ (t.phase = .queued ∨ t.phase = .cancelled)) (j : Job) :
    Leads (fun v : World σ => Untouched id t l c v ∧ Tended early none v.state) (work s j)
      (fun _ v => ∃ t', Untouched id t' l c v ∧ t'.languages = t.languages)
      fun v => ∃ t', Untouched id t' l c v ∧ t'.languages = t.languages := by
  have blind : Blind s [.waits, .queue] []
      fun v => Untouched id t l c v ∧ Tended early none v.state :=
    (blind_untouched (by simp) (by simp)).and (blind_tended (by simp) (by simp))
  refine leads_work blind (fun _ h => ⟨t, h.1, rfl⟩) fun id' _ => ?_
  by_cases hid : id' = id
  · -- the task itself makes no call
    subst hid
    refine leads_advance_stopped (t := t) (fun v hv => hv.1.1) stopped.1 (fun hp v hv => ?_)
      (fun ticket hp => ?_) fun _ _ v hv => ⟨t, hv.1, rfl⟩
    · have ended := hv.1.1.finish id' .cancelled
      rw [if_pos rfl] at ended
      exact ⟨_, ⟨ended, hv.1.2⟩, rfl⟩
    · rcases stopped.2 with hq | hq <;> rw [hq] at hp <;> cases hp
  · refine leads_advance_of (fun _ hv _ => ⟨t, hv.1, rfl⟩) fun u v hv => ?_
    -- a task that is still to call the installer has its languages for itself
    have hlu : u.phase = .queued → l ∉ u.languages := by
      intro hp hlu
      have h₁ := (hv.1.2.mem_languages hv.1.1.1 (.inr he)).mp hl
      have h₂ := (hv.1.2.mem_languages hv.2 (.inl (by rw [hp]; rfl))).mp hlu
      exact hid (Option.some.inj (h₂.symm.trans h₁))
    exact ((untouched_advance hid hlu).mono (fun _ h => h) (fun _ _ h => ⟨t, h, rfl⟩)
      fun _ h => ⟨t, h, rfl⟩) v ⟨hv.1.1, hv.2⟩

/-- No step touches a task that was asked to stop before it began, but to end it, and none calls
the installer with a language of it. -/
theorem exec_stranded {x : Step σ} {w : World σ} (h : Tended early none w.state)
    (he : early id) (hl : l ∈ t.languages) (hu : Untouched id t l c w) :
    ∃ t', Untouched id t' l c (exec s x w) ∧ t'.languages = t.languages := by
  have stopped := (h.fits id t hu.1).stopping he
  cases x with
  | call b o =>
    refine ⟨t, exec_call_of (fun _ _ h => h) ?_, rfl⟩
    exact perform_keeps_of_dispatch (blind_untouched (by simp) (by simp))
      (fun ls cb _ => untouched_dispatch ls cb) hu
  | work j =>
    exact exec_work_of (I := fun v => ∃ t', Untouched id t' l c v ∧ t'.languages = t.languages)
      (fun _ _ h => h) ⟨t, hu, rfl⟩
      ((leads_work_stranded he hl stopped j).run ⟨hu, h.congr rfl rfl⟩)
  | answer ticket =>
    obtain ⟨u, hu', rfl | ⟨b, hb, -⟩⟩ := Loop.answer_task w.state.loop ticket hu.1
    · exact ⟨_, ⟨hu', hu.2⟩, rfl⟩
    · rcases stopped.2 with hq | hq <;> rw [hq] at hb <;> cases hb
  | cancel i =>
    have task := w.state.loop.cancel_task i id
    rw [hu.1] at task
    by_cases hi : i = id
    · rw [if_pos hi] at task
      exact ⟨_, ⟨task, hu.2⟩, t.stopping_languages⟩
    · rw [if_neg hi] at task
      exact ⟨t, ⟨task, hu.2⟩, rfl⟩
  | wait language => exact ⟨t, hu, rfl⟩
  | meanwhile f => exact ⟨t, hu, rfl⟩

/-- A language is with a task that was stopped early, and the calls of the installer with it are
those there were. -/
def Stranded (id : TaskId) (l : String) (c : List (List String)) (w : World σ) : Prop :=
  ∃ early, Tended early none w.state ∧ early id ∧ ∃ t, Untouched id t l c w ∧ l ∈ t.languages

theorem Stranded.pending {w : World σ} (h : Stranded id l c w) :
    Assoc.get? w.state.gateway.pending l = some id := by
  obtain ⟨early, tended, he, t, ht, hl⟩ := h
  exact (tended.mem_languages ht.1 (.inr he)).mp hl

theorem Stranded.calls {w : World σ} (h : Stranded id l c w) : callsWith l w.trace = c := by
  obtain ⟨-, -, -, t, ht, -⟩ := h
  exact ht.2

theorem Stranded.run {w : World σ} (h : Stranded id l c w) (more : List (Step σ)) :
    Stranded id l c (TreeFeatures.run s more w) := by
  refine run_induction (fun x _ v hv => ?_) h
  obtain ⟨early, tended, he, t, ht, hl⟩ := hv
  obtain ⟨t', ht', hlanguages⟩ := exec_stranded (x := x) tended he hl ht
  exact ⟨_, exec_tended x tended, .inl he, t', ht', hlanguages ▸ hl⟩

/-! ## Requests -/

/-- A language is with a task in flight. Unless it was pending before, that is a new task, which is
to begin. -/
def Entrusted (l : String) (w v : World σ) : Prop :=
  ∃ id t, Assoc.get? v.state.gateway.pending l = some id ∧ InFlight v.state id t ∧
    l ∈ t.languages ∧
    (Assoc.get? w.state.gateway.pending l = none →
      w.state.loop.tasks[id]? = none ∧ t.phase = .queued ∧ t.cancelRequested = false ∧
        .task id ∈ v.state.loop.queue)

/-- A request that is answered with a task leaves every language of it to a task in flight, but for
those of tasks that were stopped early. -/
theorem leads_dispatch_entrusted (languages : List String) (callback : Option Callback)
    {w : World σ} (h : Tended early none w.state) (hl : l ∈ Gateway.requested languages)
    (hearly : ∀ id, Assoc.get? w.state.gateway.pending l = some id → ¬ early id) :
    Leads (fun v => v.state.gateway.pending = w.state.gateway.pending ∧
        v.state.loop.tasks = w.state.loop.tasks)
      (Gateway.dispatch s languages callback) (fun r v => r ≠ none → Entrusted l w v) E := by
  refine Gateway.leads_dispatch ?_ (fun _ _ _ h => h) (fun _ _ hr => absurd rfl hr)
    fun v hv _ _ _ => ?_
  · refine Blind.of_state (J := fun st => st.gateway.pending = w.state.gateway.pending ∧
      st.loop.tasks = w.state.loop.tasks) fun p hp st st' hst h => ?_
    cases hst <;> first | exact h | simp at hp
  obtain ⟨hpending, htasks⟩ := hv
  have lookup := Gateway.accept_pending v.state (Gateway.requested languages) callback l
  cases hw : Assoc.get? w.state.gateway.pending l with
  | none =>
    have hfree : Assoc.get? v.state.gateway.pending l = none := hpending ▸ hw
    obtain ⟨hf, -, task⟩ := Gateway.accept_new hl hfree callback
    rw [if_pos hf] at lookup
    refine ⟨_, _, lookup, ⟨task, rfl⟩, hf, fun _ => ⟨?_, rfl, rfl, ?_⟩⟩
    · exact htasks ▸ List.getElem?_eq_none (Nat.le_refl _)
    · rw [Gateway.accept_eq, if_neg (List.ne_nil_of_mem hf)]
      exact List.mem_append_right _ (List.mem_singleton_self _)
  | some id =>
    have hv : Assoc.get? v.state.gateway.pending l = some id := hpending ▸ hw
    rw [if_neg fun hf => by simp [hv] at hf, hv] at lookup
    obtain ⟨t, ht, ⟨ho, -⟩, hlt⟩ := (h.held l id).mp hw
    exact ⟨id, t, lookup, ⟨Gateway.accept_task _ _ _ (htasks ▸ ht),
      ho.resolve_right (hearly id hw)⟩, hlt, fun hnone => by rw [hw] at hnone; cases hnone⟩

/-- When the turn of a task comes that has not begun, it calls the installer, unless somebody asked
it to stop. -/
theorem exec_begins {w : World σ} (ht : HasTask id t w) (hp : t.phase = .queued)
    (hc : t.cancelRequested = false) (hq : .task id ∈ w.state.loop.queue) :
    (.asked (.install t.languages) :: w.trace) <:+ (exec s (.work (.task id)) w).trace := by
  let Called : World σ → Prop := fun v => (.asked (.install t.languages) :: w.trace) <:+ v.trace
  have worked : Leads (fun v => HasTask id t v ∧ v.trace = w.trace) (advance s id)
      (fun _ => Called) Called := by
    refine leads_advance_going (C := Called) (fun v hv => hv.1) hc (fun _ v hv => ?_)
      (fun _ _ _ h => h) (fun ticket hp' => ?_) (fun answer => ?_) fun hne => absurd hp hne
    · exact ⟨[], by rw [← hv.2]; rfl⟩
    · rw [hp] at hp'
      cases hp'
    · exact leads_conclude (Q := Called) (T := fun _ => Called) (blind_trace _) (fun _ h => h)
        (fun b => leads_announceAll fun l _ => (trace_unheard _ l).withstands b) fun _ _ h => h
  rw [exec_work hq]
  exact worked.run (w := w.atWork (.task id)) ⟨ht, rfl⟩

/-- After a request a language is with a task in flight. Unless it was pending before, that is a new
task, and one that calls the installer when its turn comes. -/
def TakenUp (s : Surroundings σ) (l : String) (w v : World σ) : Prop :=
  ∃ id t, Assoc.get? v.state.gateway.pending l = some id ∧ InFlight v.state id t ∧
    l ∈ t.languages ∧
    (Assoc.get? w.state.gateway.pending l = none → w.state.loop.tasks[id]? = none ∧
      (.asked (.install t.languages) :: v.trace) <:+ (exec s (.work (.task id)) v).trace)

theorem Entrusted.takenUp {w v : World σ} (h : Entrusted l w v) : TakenUp s l w v := by
  obtain ⟨id, t, hid, ht, hl, hnew⟩ := h
  refine ⟨id, t, hid, ht, hl, fun hnone => ?_⟩
  obtain ⟨hfree, hp, hc, hq⟩ := hnew hnone
  exact ⟨hfree, exec_begins ht.1 hp hc hq⟩

theorem exec_request_takenUp (b : Bool) {languages : List String} {callback : Option Callback}
    {w : World σ} (h : Tended early none w.state) {task : TaskId}
    (hr : ((Gateway.dispatch s languages callback).run (w.setRunning b)).1.toOption =
      some (some task))
    (hl : l ∈ Gateway.requested languages)
    (hearly : ∀ id, Assoc.get? w.state.gateway.pending l = some id → ¬ early id) :
    TakenUp s l w (exec s (.call b (.request languages callback)) w) := by
  obtain ⟨r, hr', entrusted⟩ := (leads_dispatch_entrusted (s := s) languages callback h hl
    hearly).exists_ok (w := w.setRunning b) ⟨rfl, rfl⟩
  have hsome : r = some task := by
    rw [hr'] at hr
    exact Option.some.inj hr
  have performed : ((perform s (.request languages callback)).run (w.setRunning b)).2 =
      ((Gateway.dispatch s languages callback).run (w.setRunning b)).2 := by
    unfold perform
    rw [run_bind_of_ok _ (Prod.ext hr' rfl)]
    rfl
  rw [exec_call, performed]
  exact Entrusted.takenUp (entrusted (by simp [hsome]))

/-! ## Runs -/

/-- A task was asked to stop before it began. -/
def StoppedEarly (s : Surroundings σ) (steps : List (Step σ)) (w : World σ) (id : TaskId) : Prop :=
  ∃ before, before ++ [.cancel id] <+: steps ∧
    ∃ t, HasTask id t (TreeFeatures.run s before w) ∧ t.phase = .queued

theorem stoppedEarly_concat {steps : List (Step σ)} {x : Step σ} {w : World σ} :
    StoppedEarly s (steps ++ [x]) w id ↔
      StoppedEarly s steps w id ∨ StopsEarly x (TreeFeatures.run s steps w) id := by
  constructor
  · rintro ⟨before, hb, t, ht, hp⟩
    rcases List.prefix_concat_iff.mp hb with e | hb
    · obtain ⟨rfl, hx⟩ := List.append_inj' e rfl
      exact .inr ⟨(List.cons.inj hx).1.symm, t, ht, hp⟩
    · exact .inl ⟨before, hb, t, ht, hp⟩
  · rintro (⟨before, hb, t, ht, hp⟩ | ⟨rfl, t, ht, hp⟩)
    · exact ⟨before, hb.trans (List.prefix_append _ _), t, ht, hp⟩
    · exact ⟨steps, List.prefix_rfl, t, ht, hp⟩

theorem tended_initial {w : World σ} (h : Initial w) : Tended (fun _ => False) none w.state := by
  have hp : w.state.gateway.pending = [] := by rw [h.state]
  have ht : w.state.loop.tasks = [] := by rw [h.state]
  refine ⟨fun l id => ?_, fun id t ht' => ?_, nofun, nofun⟩
  · rw [hp, ht]
    exact ⟨nofun, fun ⟨t, h, _⟩ => nomatch h⟩
  · rw [ht] at ht'
    cases ht'

theorem run_tended {w : World σ} (hw : Initial w) (steps : List (Step σ)) :
    Tended (StoppedEarly s steps w) none (TreeFeatures.run s steps w).state := by
  induction steps using List.reverseRecOn with
  | nil =>
    refine (tended_initial hw).of_iff fun id => ⟨nofun, ?_⟩
    rintro ⟨before, hb, -⟩
    simp at hb
  | append_singleton steps x ih =>
    rw [run_append]
    exact (exec_tended x ih).of_iff fun id => stoppedEarly_concat.symm

/-- **What is left of tasks that are asked to stop.** After any run, with `w` the world it ends in:

* the pending languages are those of the tasks in flight, and of the tasks that were asked to stop
  before they began, over or not;
* a language that is pending with such a task stays so for ever, and the installer is not called
  with it any more;
* a request that is answered with a task leaves any other language of it to a task in flight; if the
  language was not pending, that is a new task, which calls the installer when its turn comes. -/
theorem stopped_installs {w₀ : World σ} (hw : Initial w₀) {steps : List (Step σ)} {w : World σ}
    (hrun : TreeFeatures.run s steps w₀ = w) :
    (∀ l id, Assoc.get? w.state.gateway.pending l = some id ↔
      ∃ t, HasTask id t w ∧ l ∈ t.languages ∧
        (t.phase.isOver = false ∨ StoppedEarly s steps w₀ id)) ∧
    (∀ l id, Assoc.get? w.state.gateway.pending l = some id → StoppedEarly s steps w₀ id →
      ∀ more : List (Step σ),
        Assoc.get? (TreeFeatures.run s more w).state.gateway.pending l = some id ∧
          callsWith l (TreeFeatures.run s more w).trace = callsWith l w.trace) ∧
    (∀ b languages callback task,
      ((Gateway.dispatch s languages callback).run (w.setRunning b)).1.toOption =
        some (some task) →
      ∀ l ∈ Gateway.requested languages,
        (∀ id, Assoc.get? w.state.gateway.pending l = some id → ¬ StoppedEarly s steps w₀ id) →
        TakenUp s l w (exec s (.call b (.request languages callback)) w)) := by
  have tended : Tended (StoppedEarly s steps w₀) none w.state := hrun ▸ run_tended hw steps
  refine ⟨fun l id => ?_, fun l id hid he more => ?_, fun b languages callback task hr l hl hearly =>
    exec_request_takenUp b tended hr hl hearly⟩
  · refine (tended.held l id).trans (exists_congr fun t => and_congr_right fun _ => ?_)
    simp [and_comm]
  · obtain ⟨t, ht, -, hl⟩ := (tended.held l id).mp hid
    have stranded : Stranded id l (callsWith l w.trace) w := ⟨_, tended, he, t, ⟨ht, rfl⟩, hl⟩
    have later := stranded.run (s := s) more
    exact ⟨later.pending, later.calls⟩

/-- A task that is asked to stop while the installer is at work gives lua back: the next request
for it starts another task. -/
theorem stopped_installs_awaiting :
    let s := Script.Stage.surroundings
    let steps : List (Step Script.Stage) :=
      [.call true (.request ["lua"] none), .work (.task 0), .cancel 0, .work (.task 0)]
    let w := TreeFeatures.run s steps openWorld
    callsWith "lua" w.trace = [["lua"]] ∧ Assoc.get? w.state.gateway.pending "lua" = none ∧
      TakenUp s "lua" w (exec s (.call true (.request ["lua"] none)) w) := by
  intro s steps w
  have hw : Initial openWorld := ⟨rfl, rfl⟩
  obtain ⟨-, -, requested⟩ := stopped_installs (s := s) hw (w := w) rfl
  have hnone : Assoc.get? w.state.gateway.pending "lua" = none := by decide
  refine ⟨by decide, hnone, requested true ["lua"] none 1 (by decide) "lua" (by decide) ?_⟩
  rw [hnone]
  nofun

/-- A task that is asked to stop before its first step leaves lua pending when it is over. The next
request for lua is answered with that task, and the installer is never called. -/
theorem language_stranded :
    let s := Script.Stage.surroundings
    let steps : List (Step Script.Stage) :=
      [.call true (.request ["lua"] none), .cancel 0, .work (.task 0)]
    let w := TreeFeatures.run s steps openWorld
    let v := exec s (.call true (.request ["lua"] none)) w
    HasTask 0 { languages := ["lua"], phase := .cancelled, cancelRequested := true } w ∧
      Assoc.get? w.state.gateway.pending "lua" = some 0 ∧
      ((Gateway.dispatch s ["lua"] none).run w).1.toOption = some (some 0) ∧
      v.state.loop.tasks = w.state.loop.tasks ∧ v.state.loop.queue = [] ∧
      installCalls v.trace = [] :=
  ⟨rfl, by decide, by decide, by decide, by decide, by decide⟩

end TreeFeatures.Install
