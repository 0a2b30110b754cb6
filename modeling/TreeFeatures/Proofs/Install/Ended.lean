import TreeFeatures.Proofs.Run

/-!
# Reports are about installs that are over

Whoever is told about the end of the install of a language is told at the end of a task that had the
language, and with the success that the task ends with.

* `Ended` is the invariant: each report has its task. While a task tells everybody about its end it
  is not over yet; `Ending` makes an exception for it.
* `exec_ended`: every step keeps it. `told_finished`: so it holds after every run.
-/

namespace TreeFeatures.Install

open Act

/-- A task with a language is over, with the given success. -/
def Finished (l : String) (b : Bool) (st : State) : Prop :=
  ∃ (id : TaskId) (t : Task), st.loop.tasks[id]? = some t ∧ l ∈ t.languages ∧ t.phase = .finished b

variable {σ : Type} {s : Surroundings σ} {l : String} {b : Bool} {st st' : State}

/-- Whoever was told about an install was told about a task that is over. -/
def Ended (w : World σ) : Prop := ∀ c l b, .told c l b ∈ w.trace → Finished l b w.state

/-- The same while a task is ending. -/
structure Ending (id : TaskId) (t : Task) (success : Bool) (w : World σ) : Prop where
  task : HasTask id t w
  inFlight : t.phase.isOver = false
  told : ∀ c l b, .told c l b ∈ w.trace → Finished l b w.state ∨ l ∈ t.languages ∧ b = success

theorem Finished.of_tasks (h : Finished l b st)
    (hst : ∀ (id : TaskId) (t : Task), st.loop.tasks[id]? = some t → t.phase = .finished b →
      st'.loop.tasks[id]? = some t) : Finished l b st' := by
  obtain ⟨id, t, ht, hl, hp⟩ := h
  exact ⟨id, t, hst id t ht hp, hl, hp⟩

theorem Finished.accept (h : Finished l b st) (languages : List String)
    (callback : Option Callback) :
    Finished l b (Gateway.accept st (Gateway.requested languages) callback) :=
  h.of_tasks fun _ _ ht _ => Gateway.accept_task _ _ _ ht

/-- A task in flight that changes its phase is not one of those that are over. -/
theorem Finished.of_others {lp : Loop} {id : TaskId} {t : Task} (h : Finished l b st)
    (ht : st.loop.tasks[id]? = some t) (ho : t.phase.isOver = false)
    (hst : ∀ id', id ≠ id' → lp.tasks[id']? = st.loop.tasks[id']?) :
    Finished l b { st with loop := lp } := by
  refine h.of_tasks fun id' u hu hp => ?_
  by_cases e : id = id'
  · subst e
    obtain rfl := Option.some.inj (ht.symm.trans hu)
    rw [hp] at ho
    cases ho
  · exact (hst id' e).trans hu

theorem finish_others (lp : Loop) {id id' : TaskId} (p : Phase) (h : id ≠ id') :
    (lp.finish id p).tasks[id']? = lp.tasks[id']? := by
  rw [Loop.finish_task, if_neg h]

theorem setPhase_others (lp : Loop) {id id' : TaskId} (p : Phase) (h : id ≠ id') :
    (lp.setPhase id p).tasks[id']? = lp.tasks[id']? := by
  rw [Loop.setPhase_task, if_neg h]

/-! ## The end of a task -/

theorem blind_ended {parts : List Part} {areas : List Area} (h : Part.tasks ∉ parts) :
    Blind s parts areas Ended := by
  refine ⟨fun _ _ hw => hw, fun p hp w st hst hw c l b hm => ?_, fun c hc w hw c l b hm => ?_⟩
  · have := hw c l b hm
    cases hst with
    | tasks => exact absurd hp h
    | _ => exact this
  · exact hw c l b ((List.mem_cons.mp hm).resolve_left nofun)

theorem ended_dispatch (languages : List String) (callback : Option Callback) :
    Keeps (Ended (σ := σ)) (Gateway.dispatch s languages callback) :=
  Gateway.keeps_dispatch_of (blind_ended (by simp)) fun _ hw _ c l b hm =>
    (hw c l b hm).accept languages callback

variable {id : TaskId} {t : Task} {success : Bool}

theorem blind_ending {parts : List Part} {areas : List Area} (h : Part.tasks ∉ parts) :
    Blind s parts areas (Ending id t success) := by
  refine ⟨fun _ _ hw => ⟨hw.task, hw.inFlight, hw.told⟩, fun p hp w st hst hw => ?_,
    fun c hc w hw => ?_⟩
  · cases hst with
    | tasks => exact absurd hp h
    | _ => exact ⟨hw.task, hw.inFlight, hw.told⟩
  · refine ⟨hw.task, hw.inFlight, fun c l b hm => hw.told c l b ?_⟩
    exact (List.mem_cons.mp hm).resolve_left nofun

/-- Telling about a language of the task is in order. -/
theorem ending_withstands (hl : l ∈ t.languages) :
    Withstands s l success (Ending id t success) := by
  have told : ∀ c (w : World σ), Ending id t success w →
      Ending id t success { w with trace := .told c l success :: w.trace } := by
    refine fun c w hw => ⟨hw.task, hw.inFlight, fun c' l' b' hm => ?_⟩
    rcases List.mem_cons.mp hm with e | hm
    · cases e
      exact .inr ⟨hl, rfl⟩
    · exact hw.told c' l' b' hm
  refine ⟨blind_ending (by simp), fun w hw => ⟨hw.task, hw.inFlight, hw.told⟩,
    fun name => told (.outside name), fun name task w hw => ?_, fun r _ => ?_, fun E => ?_⟩
  · exact ⟨hw.task, hw.inFlight, fun c l b hm =>
      hw.told c l b ((List.mem_cons.mp hm).resolve_left nofun)⟩
  · refine Gateway.keeps_dispatch_of (blind_ending (by simp)) fun w hw _ => ?_
    exact ⟨Gateway.accept_task _ _ _ hw.task, hw.inFlight, fun c l b hm =>
      (hw.told c l b hm).imp_left fun h => h.accept r.languages r.callback⟩
  · refine (leads_emit (told .enablement)).bind fun _ => Leads.shielded ?_ fun _ _ hw =>
      ⟨hw.task, hw.inFlight, hw.told⟩
    exact (Enablement.keeps_installed (blind_ending (by simp))
      (fun w hw => ⟨hw.task, hw.inFlight, hw.told⟩) success).leads

theorem Ending.finish {w : World σ} (h : Ending id t success w) :
    Ended (w.onLoop fun lp => lp.finish id (.finished success)) := by
  intro c l b hm
  rcases h.told c l b hm with hf | ⟨hl, rfl⟩
  · exact hf.of_others h.task h.inFlight fun id' hid => finish_others _ _ hid
  · have task := h.task.finish id (.finished b)
    rw [if_pos rfl] at task
    exact ⟨id, _, task, hl, rfl⟩

theorem ended_conclude (ho : t.phase.isOver = false) (answer : Except Fault Value)
    {E : World σ → Prop} :
    Leads (fun w => Ended w ∧ HasTask id t w) (conclude s id t.languages answer) (fun _ => Ended)
      E := by
  refine leads_conclude (Q := fun w => Ended w ∧ HasTask id t w)
    (T := fun b => Ending id t b) ?_ (fun w h => h) (fun b => ?_) fun b w h => h.finish
  · exact (blind_ended (by simp)).and (blind_hasTask (by simp))
  · refine (leads_announceAll fun l hl => ending_withstands hl).mono (fun w h => ?_)
      (fun _ _ h => h) fun _ h => h
    exact ⟨h.2, ho, fun c l b hm => .inl (h.1 c l b hm)⟩

theorem ended_advance (id : TaskId) :
    Leads (Ended (σ := σ)) (advance s id) (fun _ => Ended) Ended := by
  refine leads_advance_of (fun _ h _ => h) fun t => ?_
  have called : ∀ (c : Call) (w : World σ), Ended w → Ended (afterCall s c w) :=
    fun c w h c' l b hm => h c' l b ((List.mem_cons.mp hm).resolve_left nofun)
  refine leads_advance (C := fun w => (Ended w ∧ HasTask id t w) ∧ t.phase.isOver = false)
    (fun w h => h.2) (fun hp w h => ⟨⟨called _ w h.1, h.2⟩, by rw [hp]; rfl⟩)
    (fun _ ticket w h c l b hm => ?_) (fun _ hp w h => ⟨⟨called _ w h.1, h.2⟩, by rw [hp]; rfl⟩)
    (fun answer w h => ended_conclude h.2 answer w h.1) (fun _ w h => ⟨fun hp c l b hm => ?_, ?_⟩)
    fun _ _ w h => h.1
  · exact (h.1.1 c l b hm).of_others h.1.2 h.2 fun id' hid => setPhase_others _ _ hid
  · exact (h.1 c l b hm).of_others h.2 (by rw [hp]; rfl) fun id' hid => finish_others _ _ hid
  · rintro ⟨ticket, hp⟩ c l b hm
    have := (h.1 c l b hm).of_others h.2 (by rw [hp]; rfl)
      fun id' hid => finish_others w.state.loop .cancelled hid
    exact this

/-! ## Steps -/

/-- Asking a task to stop changes no task that is over. -/
theorem cancel_others (lp : Loop) (id : TaskId) {id' : TaskId} {u : Task}
    (hu : lp.tasks[id']? = some u) {b : Bool} (hp : u.phase = .finished b) :
    (lp.cancel id).1.tasks[id']? = some u := by
  rw [Loop.cancel_task, hu]
  split
  · exact congrArg some (Task.stopping_of_isOver (by rw [hp]; rfl))
  · rfl

/-- Every step keeps it that reports are about tasks that are over. -/
theorem exec_ended (x : Step σ) {w : World σ} (h : Ended w) : Ended (exec s x w) := by
  cases x with
  | call b o =>
    exact exec_call_of (fun _ _ h => h) (perform_keeps_of_dispatch (blind_ended (by simp))
      (fun languages callback _ => ended_dispatch languages callback) h)
  | work j =>
    refine exec_work_of (fun _ _ h => h) h ?_
    have worked : Leads Ended (work s j) (fun _ => Ended) (Ended (σ := σ)) :=
      leads_work (blind_ended (by simp)) (fun _ h => h) fun id _ => ended_advance id
    exact worked.run h
  | answer ticket =>
    refine fun c l b hm => (h c l b hm).of_tasks fun id t ht hp => ?_
    obtain ⟨t', ht', rfl | ⟨_, hb, -⟩⟩ := Loop.answer_task w.state.loop ticket ht
    · exact ht'
    · rw [hp] at hb
      cases hb
  | cancel id =>
    exact fun c l b hm => (h c l b hm).of_tasks fun id' u hu hp => cancel_others _ id hu hp
  | wait language => exact h
  | meanwhile f => exact h

/-- **Whoever is told about the end of an install is told about a task that is over by then**, one
with the language and with the same success. -/
theorem told_finished {w : World σ} (hw : Initial w) (steps : List (Step σ)) {c : Callback}
    (h : .told c l b ∈ (run s steps w).trace) : Finished l b (run s steps w).state := by
  have initial : Ended w := fun c l b hm => by rw [hw.trace] at hm; cases hm
  exact run_induction (fun x _ w hw => exec_ended x hw) initial c l b h

end TreeFeatures.Install
