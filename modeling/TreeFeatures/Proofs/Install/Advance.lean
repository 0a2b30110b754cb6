import TreeFeatures.Proofs.Enablement.Plan

/-!
# How a task advances

What the operations of the loop do to its tasks, and the rules for a task that advances: it calls
the installer, waits for the answer, and in the end tells everybody who asked.

* `finish_task`, `setPhase_task`: only the task itself changes.
* `answer_task`: an answer queues the tasks that wait for it again, and changes nothing else.
* `Withstands`: a property that nobody who is told about the end of an install makes false;
  `Withstands.leads_announce` is the rule for it. `Unheard`: a property that does not depend on what
  the end of an install is about.
* `leads_announceAll`, `leads_conclude`, `leads_advance`: a whole task, piece by piece.
-/

namespace TreeFeatures

open Act

namespace Loop

theorem setPhase_task (l : Loop) (id id' : TaskId) (p : Phase) :
    (l.setPhase id p).tasks[id']? =
      if id = id' then (l.tasks[id']?).map fun t => { t with phase := p } else l.tasks[id']? := by
  unfold setPhase updateTask
  rw [List.getElem?_modify]
  split
  · rfl
  · simp

/-- A change that leaves all tasks there and creates none: each task comes from one that was. -/
theorem task_back {l l' : Loop} {p : TaskId → Task → Task → Prop}
    (hlength : l'.tasks.length = l.tasks.length)
    (htask : ∀ (id : TaskId) (t : Task), l.tasks[id]? = some t →
      ∃ t' : Task, l'.tasks[id]? = some t' ∧ p id t t') {id : TaskId} {t' : Task}
    (ht' : l'.tasks[id]? = some t') : ∃ t : Task, l.tasks[id]? = some t ∧ p id t t' := by
  have hlt : id < l.tasks.length := hlength ▸ (List.getElem?_eq_some_iff.mp ht').1
  obtain ⟨u, hu, hp⟩ := htask id _ (List.getElem?_eq_getElem hlt)
  obtain rfl := Option.some.inj (ht'.symm.trans hu)
  exact ⟨_, List.getElem?_eq_getElem hlt, hp⟩

/-- Queueing several jobs changes the queue only. -/
theorem foldl_push {α : Type} (l : Loop) (xs : List α) (f : α → Job) :
    xs.foldl (fun l x => l.push (f x)) l = { l with queue := l.queue ++ xs.map f } := by
  induction xs generalizing l with
  | nil => simp
  | cons x rest ih =>
    rw [List.foldl_cons, ih]
    simp [push]

theorem finish_eq (l : Loop) (id : TaskId) (p : Phase) :
    l.finish id p =
      { l with tasks := (l.setPhase id p).tasks, queue := (l.finish id p).queue } := by
  unfold finish
  rw [foldl_push _ _ Job.report]
  rfl

theorem finish_task (l : Loop) (id id' : TaskId) (p : Phase) :
    (l.finish id p).tasks[id']? =
      if id = id' then (l.tasks[id']?).map fun t => { t with phase := p } else l.tasks[id']? := by
  rw [finish_eq]
  exact setPhase_task l id id' p

theorem finish_length (l : Loop) (id : TaskId) (p : Phase) :
    (l.finish id p).tasks.length = l.tasks.length := by
  rw [finish_eq]
  exact List.length_modify _ _ _

/-- After the end of a task, the task has its last phase and the others are as they were. -/
theorem finish_cases {l : Loop} {i id : TaskId} {p : Phase} {t : Task}
    (h : (l.finish i p).tasks[id]? = some t) :
    (i = id ∧ ∃ u, l.tasks[id]? = some u ∧ t = { u with phase := p }) ∨
      (i ≠ id ∧ l.tasks[id]? = some t) := by
  rw [finish_task] at h
  split at h
  · next hid =>
    obtain ⟨u, hu, rfl⟩ := Option.map_eq_some_iff.mp h
    exact .inl ⟨hid, u, hu, rfl⟩
  · next hid => exact .inr ⟨hid, h⟩

theorem look_eq (l : Loop) (wait : Nat) (ids : List TaskId) :
    l.look wait ids =
      { l with waits := (l.look wait ids).waits, queue := (l.look wait ids).queue } := by
  unfold look
  split
  · rfl
  · rw [foldl_push _ _ fun _ => Job.report wait]
    rfl

theorem receive_eq (l : Loop) (wait : Nat) :
    l.receive wait =
      { l with waits := (l.receive wait).waits, queue := (l.receive wait).queue } := by
  unfold receive
  dsimp only
  split <;> rfl

/-- The tasks that wait for a ticket, one after the other: each of them goes on waiting, or is
queued again. -/
theorem answer_loop (ticket : Nat) (ids : List TaskId) (l : Loop)
    (hids : ∀ id ∈ ids, ∀ t : Task, l.tasks[id]? = some t → ∃ b, t.phase = .awaiting ticket b) :
    ∀ (id : TaskId) (t : Task), l.tasks[id]? = some t → ∃ t' : Task,
      (ids.foldl (fun (l : Loop) id => (l.setPhase id (.awaiting ticket true)).push (.task id))
        l).tasks[id]? = some t' ∧
      (t' = t ∨ ∃ b, t.phase = .awaiting ticket b ∧
        t' = { t with phase := .awaiting ticket true }) := by
  induction ids generalizing l with
  | nil => exact fun id t ht => ⟨t, ht, .inl rfl⟩
  | cons i rest ih =>
    intro id t ht
    rw [List.foldl_cons]
    have task : ∀ id, ((l.setPhase i (.awaiting ticket true)).push (.task i)).tasks[id]? =
        if i = id then (l.tasks[id]?).map fun t => { t with phase := .awaiting ticket true }
        else l.tasks[id]? := fun id => setPhase_task l i id _
    have hids' : ∀ id ∈ rest, ∀ t : Task,
        ((l.setPhase i (.awaiting ticket true)).push (.task i)).tasks[id]? = some t →
          ∃ b, t.phase = .awaiting ticket b := by
      intro id hid t ht
      rw [task] at ht
      split at ht
      · obtain ⟨u, -, rfl⟩ := Option.map_eq_some_iff.mp ht
        exact ⟨true, rfl⟩
      · exact hids id (List.mem_cons_of_mem i hid) t ht
    by_cases hi : i = id
    · subst hi
      obtain ⟨b, hb⟩ := hids i List.mem_cons_self t ht
      have ht' : ((l.setPhase i (.awaiting ticket true)).push (.task i)).tasks[i]? =
          some { t with phase := .awaiting ticket true } := by
        rw [task, if_pos rfl, ht]
        rfl
      obtain ⟨t', h, h'⟩ := ih _ hids' i _ ht'
      refine ⟨t', h, .inr ⟨b, hb, ?_⟩⟩
      rcases h' with rfl | ⟨_, -, rfl⟩ <;> rfl
    · have ht' : ((l.setPhase i (.awaiting ticket true)).push (.task i)).tasks[id]? = some t := by
        rw [task, if_neg hi, ht]
      exact ih _ hids' id t ht'

/-- An answer queues tasks that wait for it, and changes nothing else about tasks. -/
theorem answer_task (l : Loop) (ticket : Nat) {id : TaskId} {t : Task}
    (h : l.tasks[id]? = some t) : ∃ t', (l.answer ticket).tasks[id]? = some t' ∧
      (t' = t ∨ ∃ b, t.phase = .awaiting ticket b ∧
        t' = { t with phase := .awaiting ticket true }) := by
  refine answer_loop ticket _ l (fun id hid t ht => ⟨false, ?_⟩) id t h
  have := (List.mem_filter.mp hid).2
  rw [ht] at this
  simpa using this

theorem answer_length (l : Loop) (ticket : Nat) :
    (l.answer ticket).tasks.length = l.tasks.length := by
  unfold answer
  dsimp only
  generalize (List.range l.tasks.length).filter _ = ids
  induction ids generalizing l with
  | nil => rfl
  | cons i rest ih =>
    rw [List.foldl_cons, ih]
    exact List.length_modify _ _ _

/-- A task that gets another phase keeps its languages. -/
theorem languages_of_phase {l l' : Loop} {i : TaskId} {p : Phase}
    (h : ∀ id, l'.tasks[id]? =
      if i = id then (l.tasks[id]?).map fun t => { t with phase := p } else l.tasks[id]?)
    (id : TaskId) (t : Task) (ht : l'.tasks[id]? = some t) :
    ∃ u, l.tasks[id]? = some u ∧ t.languages = u.languages := by
  rw [h] at ht
  split at ht
  · obtain ⟨u, hu, rfl⟩ := Option.map_eq_some_iff.mp ht
    exact ⟨u, hu, rfl⟩
  · exact ⟨t, ht, rfl⟩

/-- An answer leaves their languages to the tasks. -/
theorem languages_answer (l : Loop) (ticket : Nat) (id : TaskId) (t : Task)
    (ht : (l.answer ticket).tasks[id]? = some t) :
    ∃ u, l.tasks[id]? = some u ∧ t.languages = u.languages := by
  obtain ⟨u, hu, hcases⟩ := task_back (l.answer_length ticket) (fun _ _ => l.answer_task ticket) ht
  refine ⟨u, hu, ?_⟩
  rcases hcases with rfl | ⟨b, -, rfl⟩ <;> rfl

end Loop

/-- A task after somebody asked it to stop. -/
def Task.stopping (t : Task) : Task :=
  match t.phase with
  | .finished _ | .cancelled => t
  | .awaiting ticket false => { t with cancelRequested := true, phase := .awaiting ticket true }
  | _ => { t with cancelRequested := true }

theorem Task.stopping_languages (t : Task) : t.stopping.languages = t.languages := by
  unfold stopping
  split <;> rfl

theorem Task.stopping_isOver (t : Task) : t.stopping.phase.isOver = t.phase.isOver := by
  unfold stopping
  split <;> simp_all [Phase.isOver]

/-- Asking a task that has not begun to stop. -/
theorem Task.stopping_of_queued {t : Task} (h : t.phase = .queued) :
    t.stopping = { t with cancelRequested := true } := by
  unfold stopping
  rw [h]

theorem Task.queued_of_stopping {t : Task} (h : t.stopping.phase = .queued) : t.phase = .queued := by
  unfold stopping at h
  split at h
  · exact h
  · exact h
  · cases h
  · exact h

theorem Task.stopping_of_isOver {t : Task} (h : t.phase.isOver = true) : t.stopping = t := by
  unfold stopping
  cases hp : t.phase with
  | finished b => rfl
  | cancelled => rfl
  | queued | awaiting _ _ => simp [hp, Phase.isOver] at h

namespace Loop

/-- Asking a task to stop changes no other task. -/
theorem cancel_task (l : Loop) (i id : TaskId) :
    (l.cancel i).1.tasks[id]? =
      if i = id then (l.tasks[id]?).map Task.stopping else l.tasks[id]? := by
  have asked : ∀ id, (l.updateTask i fun t => { t with cancelRequested := true }).tasks[id]? =
      if i = id then (l.tasks[id]?).map fun t => { t with cancelRequested := true }
      else l.tasks[id]? := by
    intro id
    rw [updateTask, List.getElem?_modify]
    split <;> simp
  by_cases hi : i = id
  · subst hi
    rw [if_pos rfl]
    unfold cancel Task.stopping
    cases ht : l.tasks[i]? with
    | none => exact ht
    | some t =>
      have asked' := (asked i).trans ((if_pos rfl).trans (congrArg _ ht))
      rw [Option.map_some] at asked' ⊢
      dsimp only
      cases hp : t.phase with
      | finished b => exact ht
      | cancelled => exact ht
      | queued => simpa [hp] using asked'
      | awaiting ticket answered =>
        cases answered with
        | true => simpa [hp] using asked'
        | false =>
          refine (setPhase_task _ i i _).trans ?_
          rw [if_pos rfl, asked']
          rfl
  · rw [if_neg hi]
    unfold cancel
    split
    · rfl
    · dsimp only
      split
      · rfl
      · rfl
      · refine (setPhase_task _ i id _).trans ?_
        rw [if_neg hi, asked, if_neg hi]
      · rw [asked, if_neg hi]

theorem cancel_length (l : Loop) (i : TaskId) :
    (l.cancel i).1.tasks.length = l.tasks.length := by
  unfold cancel
  split
  · rfl
  · dsimp only
    split <;> simp [push, setPhase, updateTask]

/-- Asking a task to stop leaves their languages to the tasks. -/
theorem languages_cancel (l : Loop) (i id : TaskId) (t : Task)
    (ht : (l.cancel i).1.tasks[id]? = some t) :
    ∃ u, l.tasks[id]? = some u ∧ t.languages = u.languages := by
  rw [cancel_task] at ht
  split at ht
  · obtain ⟨u, hu, rfl⟩ := Option.map_eq_some_iff.mp ht
    exact ⟨u, hu, u.stopping_languages⟩
  · exact ⟨t, ht, rfl⟩

end Loop

namespace Install

variable {σ : Type} {s : Surroundings σ} {C E I P Q R : World σ → Prop}

theorem leads_updateLoop {f : Loop → Loop} (h : ∀ w, P w → Q (w.onLoop f)) :
    Leads P (updateLoop f) (fun _ => Q) E :=
  leads_update h

/-- A property that neither the waits nor the queue can make false is kept by an operation of the
loop that changes only these. -/
theorem leads_updateQueue (h : Blind s [.waits, .queue] [] I) {f : Loop → Loop}
    (hf : ∀ l, f l = { l with waits := (f l).waits, queue := (f l).queue }) :
    Leads I (updateLoop f) (fun _ => I) E := by
  refine leads_updateLoop fun w hw => ?_
  have h₁ := h.write .waits (by simp) w _ (.waits w.state (f w.state.loop).waits) hw
  have h₂ := h.write .queue (by simp) _ _ (.queue _ (f w.state.loop).queue) h₁
  rw [World.onLoop, hf]
  exact h₂

/-- A request that some listener makes when it is told about an install. -/
def Reacts (s : Surroundings σ) (r : Request) : Prop :=
  ∃ name language success o, ∃ reaction : Reaction,
    (s.reply (.tell name language success) o).1 = .ok reaction ∧ r ∈ reaction.requests

/-- A listener outside is called, and may make requests. -/
theorem leads_respond_outside {language : String} {success : Bool} {name : String}
    (hcall : ∀ w, P w → I (afterCall s (.tell name language success) w))
    (hrequested : ∀ name task w, I w → I { w with trace := .requested name task :: w.trace })
    (hdispatch : ∀ r, Reacts s r → Keeps I (Gateway.dispatch s r.languages r.callback)) :
    Leads P (respond s language success (.outside name)) (fun _ => I) I := by
  refine Leads.bind (Q := fun reaction w => I w ∧ ∀ r ∈ reaction.requests, Reacts s r)
    (leads_ask (fun w reaction hw hr => ?_) fun w f hw _ => hcall w hw) fun reaction => ?_
  · exact ⟨hcall w hw, fun r hmem => ⟨name, language, success, w.outside, reaction, hr, hmem⟩⟩
  · intro w hw
    have serve : ∀ r ∈ reaction.requests, Keeps I (serve s name r) := fun r hr =>
      (hdispatch r (hw.2 r hr)).bind fun _ => keeps_emit (hrequested name _)
    refine Keeps.leads (I := I) ?_ w hw.1
    refine (Keeps.forM serve).bind fun _ => ?_
    cases reaction.failure with
    | none => exact keeps_pure
    | some f => exact keeps_fail

theorem keeps_respond_outside (h : Blind s [] [.listener] I)
    (hrequested : ∀ name task w, I w → I { w with trace := .requested name task :: w.trace })
    (hdispatch : ∀ r, Reacts s r → Keeps I (Gateway.dispatch s r.languages r.callback))
    (language : String) (success : Bool) (name : String) :
    Keeps I (respond s language success (.outside name)) :=
  (leads_respond_outside (fun w hw => h.ask _ (by simp [Call.area]) w hw) hrequested
    hdispatch).keeps

/-- Whoever is told does what the enablement or somebody outside does. -/
theorem keeps_respond {language : String}
    (h : Blind s [.settings, .registry, .features] [.features, .options, .editor, .listener] I)
    (hdequeue : ∀ w, I w → I { w with state := w.state.dequeue language })
    (hrequested : ∀ name task w, I w → I { w with trace := .requested name task :: w.trace })
    (hdispatch : ∀ r, Reacts s r → Keeps I (Gateway.dispatch s r.languages r.callback))
    (success : Bool) (c : Callback) : Keeps I (respond s language success c) := by
  cases c with
  | enablement => exact Enablement.keeps_installed (h.mono (by simp) (by simp)) hdequeue success
  | outside name =>
    exact keeps_respond_outside (h.mono (by simp) (by simp)) hrequested hdispatch language success
      name

/-- A listener outside is told; if it fails, that ends up in the log. -/
theorem leads_tell_outside {language : String} {success : Bool} (h : Blind s [] [.listener] I)
    (htold : ∀ name w, I w → I { w with trace := .told (.outside name) language success :: w.trace })
    (hrequested : ∀ name task w, I w → I { w with trace := .requested name task :: w.trace })
    (hdispatch : ∀ r, Reacts s r → Keeps I (Gateway.dispatch s r.languages r.callback))
    (name : String) : Leads I (tell s language success (.outside name)) (fun _ => I) E :=
  (leads_emit (htold name)).bind fun _ =>
    (keeps_respond_outside h hrequested hdispatch _ _ name).leads.shielded h.log

/-- A property that the end of the install of a language cannot make false. -/
structure Unheard (s : Surroundings σ) (language : String) (I : World σ → Prop) : Prop where
  blind : Blind s [.settings, .registry, .features] [.features, .options, .editor, .listener] I
  dequeue : ∀ w, I w → I { w with state := w.state.dequeue language }
  forget : ∀ w, I w →
    I { w with state := { w.state with gateway := w.state.gateway.forget language } }
  told : ∀ c b w, I w → I { w with trace := .told c language b :: w.trace }
  requested : ∀ name task w, I w → I { w with trace := .requested name task :: w.trace }
  dispatch : ∀ r, Reacts s r → Keeps I (Gateway.dispatch s r.languages r.callback)

/-- A property that nobody who is told about the end of the install of a language makes false. -/
structure Withstands (s : Surroundings σ) (language : String) (success : Bool)
    (I : World σ → Prop) : Prop where
  blind : Blind s [] [.listener] I
  forget : ∀ w, I w →
    I { w with state := { w.state with gateway := w.state.gateway.forget language } }
  outside : ∀ name w, I w → I { w with trace := .told (.outside name) language success :: w.trace }
  requested : ∀ name task w, I w → I { w with trace := .requested name task :: w.trace }
  dispatch : ∀ r, Reacts s r → Keeps I (Gateway.dispatch s r.languages r.callback)
  enablement : ∀ E, Leads I (tell s language success .enablement) (fun _ => I) E

namespace Withstands

variable {language : String} {success : Bool}

theorem leads_tell (h : Withstands s language success I) (listener : Callback) :
    Leads I (tell s language success listener) (fun _ => I) E := by
  cases listener with
  | enablement => exact h.enablement E
  | outside name => exact leads_tell_outside h.blind h.outside h.requested h.dispatch name

/-- Telling everybody does not fail, since a listener that fails ends up in the log. -/
theorem leads_announce (h : Withstands s language success I) :
    Leads I (announce s success language) (fun _ => I) E :=
  leads_state_any.bind fun _ =>
    (leads_update h.forget).bind fun _ =>
      Leads.forM (J := fun _ => I) fun c _ => h.leads_tell c

end Withstands

/-- The enablement does not fail when it is told about the end of an install. -/
theorem leads_tell_enablement {language : String} {success : Bool}
    (h : Blind s [.settings, .registry, .features] [.features, .options, .editor] I)
    (hdequeue : ∀ w, I w → I { w with state := w.state.dequeue language })
    (htold : ∀ w, I w → I { w with trace := .told .enablement language success :: w.trace }) :
    Leads I (tell s language success .enablement) (fun _ => I) E :=
  (leads_emit htold).bind fun _ =>
    (Enablement.keeps_installed h hdequeue success).leads.shielded h.log

theorem Unheard.withstands {language : String} (h : Unheard s language I) (success : Bool) :
    Withstands s language success I where
  blind := h.blind.mono (by simp) (by simp)
  forget := h.forget
  outside name := h.told (.outside name) success
  requested := h.requested
  dispatch := h.dispatch
  enablement _ := leads_tell_enablement (h.blind.mono (by simp) (by simp)) h.dequeue
    (h.told .enablement success)

/-- A task is as it was. -/
def HasTask (id : TaskId) (t : Task) (w : World σ) : Prop := w.state.loop.tasks[id]? = some t

theorem blind_hasTask {parts : List Part} {areas : List Area} {id : TaskId} {t : Task}
    (h : Part.tasks ∉ parts) : Blind s parts areas (HasTask id t) := by
  refine Blind.of_state (J := fun st => st.loop.tasks[id]? = some t) fun p hp st st' hst ht => ?_
  cases hst with
  | tasks => exact absurd hp h
  | _ => exact ht

theorem hasTask_dispatch {id : TaskId} {t : Task} (languages : List String)
    (callback : Option Callback) :
    Keeps (HasTask id t) (Gateway.dispatch s languages callback) :=
  Gateway.keeps_dispatch_of (blind_hasTask (by simp)) fun _ h _ => Gateway.accept_task _ _ _ h

theorem hasTask_unheard {id : TaskId} {t : Task} (l : String) : Unheard s l (HasTask id t) where
  blind := blind_hasTask (by simp)
  dequeue _ h := h
  forget _ h := h
  told _ _ _ h := h
  requested _ _ _ h := h
  dispatch r _ := hasTask_dispatch r.languages r.callback

/-- A task that ends leaves other tasks as they are. -/
theorem HasTask.finish {id : TaskId} {t : Task} {w : World σ} (h : HasTask id t w) (id' : TaskId)
    (p : Phase) : HasTask id (if id' = id then { t with phase := p } else t)
      (w.onLoop fun l => l.finish id' p) := by
  have htask := Loop.finish_task w.state.loop id' id p
  rw [h] at htask
  refine htask.trans ?_
  split <;> rfl

theorem leads_judge (h : Blind s [.errors] [] P) (languages : List String)
    (answer : Except Fault Value) : Leads P (judge languages answer) (fun _ => P) E := by
  have noted : ∀ level text (b : Bool),
      Leads P (note level .installer text >>= fun _ => pure b) (fun _ => P) E :=
    fun level text b => (leads_note fun w hw => h.log w _ hw).bind fun _ => leads_pure fun _ => id
  unfold judge
  split
  · refine (leads_update (Q := P) fun w hw => ?_).bind fun _ => noted _ _ _
    exact h.write .errors (by simp) w _ (.errors w.state _) hw
  · exact noted _ _ _
  · exact noted _ _ _

/-- Telling everybody about the end of the installs of several languages. -/
theorem leads_announceAll {languages : List String} {success : Bool}
    (h : ∀ l ∈ languages, Withstands s l success I) :
    Leads I (languages.forM (announce s success)) (fun _ => I) E := by
  induction languages with
  | nil => exact leads_pure fun _ hw => hw
  | cons l rest ih =>
    refine (h l List.mem_cons_self).leads_announce.bind fun _ => ?_
    exact ih fun l' hl' => h l' (List.mem_cons_of_mem l hl')

theorem unheard_always (l : String) : Unheard s l fun _ => True :=
  ⟨.always, fun _ _ => trivial, fun _ _ => trivial, fun _ _ _ _ => trivial, fun _ _ _ _ => trivial,
    fun _ _ _ _ => trivial⟩

/-- Telling everybody does not fail. -/
theorem run_announceAll (languages : List String) (success : Bool) (w : World σ) :
    (languages.forM (announce s success)).run w =
      (.ok (), ((languages.forM (announce s success)).run w).2) := by
  obtain ⟨_, h, -⟩ := (leads_announceAll (E := fun _ => False) fun (l : String)
    (_ : l ∈ languages) => (unheard_always (s := s) l).withstands success).exists_ok (w := w) trivial
  exact Prod.ext h rfl

/-- The end of an install, piece by piece. -/
theorem leads_conclude {T : Bool → World σ → Prop} {id : TaskId} {languages : List String}
    {answer : Except Fault Value}
    (hjudge : Blind s [.errors] [] P)
    (hunassign : ∀ w, P w →
      Q { w with state := { w.state with gateway := w.state.gateway.unassign languages } })
    (hannounce : ∀ b, Leads Q (languages.forM (announce s b)) (fun _ => T b) E)
    (hfinish : ∀ b w, T b w → R (w.onLoop fun l => l.finish id (.finished b))) :
    Leads P (conclude s id languages answer) (fun _ => R) E := by
  refine (leads_judge hjudge languages answer).bind fun b => ?_
  refine (leads_update hunassign).bind fun _ => ?_
  exact (hannounce b).bind fun _ => leads_update (hfinish b)

/-- A task that nobody asked to stop advances, piece by piece. -/
theorem leads_advance_going {id : TaskId} {t : Task}
    (ht : ∀ w, P w → w.state.loop.tasks[id]? = some t) (hc : t.cancelRequested = false)
    (hcall : t.phase = .queued → ∀ w, P w → C (afterCall s (.install t.languages) w))
    (hlater : t.phase = .queued → ∀ ticket w, C w →
      Q (w.onLoop fun l => l.setPhase id (.awaiting ticket false)))
    (hcollect : ∀ ticket, t.phase = .awaiting ticket true → ∀ w, P w →
      C (afterCall s (.collect ticket) w))
    (hconclude : ∀ answer, Leads C (conclude s id t.languages answer) (fun _ => Q) E)
    (hrest : t.phase ≠ .queued → (∀ ticket, t.phase ≠ .awaiting ticket true) → ∀ w, P w → Q w) :
    Leads P (advance s id) (fun _ => Q) E := by
  intro w hw
  rw [advance, run_bind_of_ok _ (run_state w), ht w hw]
  -- the task is known, and what is done depends on its phase
  refine (?_ : Leads P _ (fun _ => Q) E) w hw
  dsimp only
  split
  case h_1 hp =>
    rw [beginTask, hc, if_neg (by simp)]
    refine (leads_attempt_ask (R := fun _ => C) (hcall hp)).bind fun r => ?_
    rcases r with f | (v | ticket)
    · exact hconclude _
    · exact hconclude _
    · exact leads_update (hlater hp ticket)
  case h_2 ticket hp =>
    rw [resumeTask, hc, if_neg (by simp)]
    exact (leads_attempt_ask (R := fun _ => C) (hcollect ticket hp)).bind fun r => hconclude _
  case h_3 ticket hp => exact leads_pure (hrest (by simp [hp]) (by simp [hp]))
  case h_4 b hp => exact leads_pure (hrest (by simp [hp]) (by simp [hp]))
  case h_5 hp => exact leads_pure (hrest (by simp [hp]) (by simp [hp]))

/-- A task that somebody asked to stop makes no call; its languages are taken from it only if it had
begun. -/
theorem leads_advance_stopped {id : TaskId} {t : Task}
    (ht : ∀ w, P w → w.state.loop.tasks[id]? = some t) (hc : t.cancelRequested = true)
    (hqueued : t.phase = .queued → ∀ w, P w → Q (w.onLoop fun l => l.finish id .cancelled))
    (hawaiting : ∀ ticket, t.phase = .awaiting ticket true → ∀ w, P w →
      Q { w with state :=
        { w.state with
          gateway := w.state.gateway.unassign t.languages
          loop := w.state.loop.finish id .cancelled } })
    (hrest : t.phase ≠ .queued → (∀ ticket, t.phase ≠ .awaiting ticket true) → ∀ w, P w → Q w) :
    Leads P (advance s id) (fun _ => Q) E := by
  intro w hw
  rw [advance, run_bind_of_ok _ (run_state w), ht w hw]
  refine (?_ : Leads P _ (fun _ => Q) E) w hw
  dsimp only
  split
  case h_1 hp =>
    rw [beginTask, if_pos hc]
    exact leads_update (hqueued hp)
  case h_2 ticket hp =>
    rw [resumeTask, if_pos hc]
    exact hawaiting ticket hp
  case h_3 ticket hp => exact leads_pure (hrest (by simp [hp]) (by simp [hp]))
  case h_4 b hp => exact leads_pure (hrest (by simp [hp]) (by simp [hp]))
  case h_5 hp => exact leads_pure (hrest (by simp [hp]) (by simp [hp]))

/-- A task that advances, whether or not somebody asked it to stop. -/
theorem leads_advance {id : TaskId} {t : Task} (ht : ∀ w, P w → w.state.loop.tasks[id]? = some t)
    (hcall : t.phase = .queued → ∀ w, P w → C (afterCall s (.install t.languages) w))
    (hlater : t.phase = .queued → ∀ ticket w, C w →
      Q (w.onLoop fun l => l.setPhase id (.awaiting ticket false)))
    (hcollect : ∀ ticket, t.phase = .awaiting ticket true → ∀ w, P w →
      C (afterCall s (.collect ticket) w))
    (hconclude : ∀ answer, Leads C (conclude s id t.languages answer) (fun _ => Q) E)
    (hcancel : t.cancelRequested = true → ∀ w, P w →
      (t.phase = .queued → Q (w.onLoop fun l => l.finish id .cancelled)) ∧
      ((∃ ticket, t.phase = .awaiting ticket true) →
        Q { w with state :=
          { w.state with
            gateway := w.state.gateway.unassign t.languages
            loop := w.state.loop.finish id .cancelled } }))
    (hrest : t.phase ≠ .queued → (∀ ticket, t.phase ≠ .awaiting ticket true) → ∀ w, P w → Q w) :
    Leads P (advance s id) (fun _ => Q) E := by
  cases hc : t.cancelRequested with
  | false => exact leads_advance_going ht hc hcall hlater hcollect hconclude hrest
  | true =>
    exact leads_advance_stopped ht hc (fun hp w hw => (hcancel hc w hw).1 hp)
      (fun ticket hp w hw => (hcancel hc w hw).2 ⟨ticket, hp⟩) hrest

/-- A task that does not exist does nothing. -/
theorem leads_advance_of {id : TaskId} (hnone : ∀ w, P w → w.state.loop.tasks[id]? = none → Q w)
    (hsome : ∀ t, Leads (fun w => P w ∧ w.state.loop.tasks[id]? = some t) (advance s id)
      (fun _ => Q) E) : Leads P (advance s id) (fun _ => Q) E := by
  intro w hw
  cases ht : w.state.loop.tasks[id]? with
  | none =>
    rw [advance, run_bind_of_ok _ (run_state w), ht]
    exact hnone w hw ht
  | some t => exact hsome t w ⟨hw, ht⟩

/-- Jobs that are no tasks touch waits and queue only. -/
theorem leads_work (h : Blind s [.waits, .queue] [] P) (hPQ : ∀ w, P w → Q w) {j : Job}
    (htask : ∀ id, j = .task id → Leads P (advance s id) (fun _ => Q) E) :
    Leads P (work s j) (fun _ => Q) E := by
  cases j with
  | task id => exact htask id rfl
  | report wait =>
    exact (leads_updateQueue h fun l => l.receive_eq wait).weaken fun _ => hPQ
  | look wait =>
    refine leads_state_any.bind fun st => ?_
    split
    · exact (leads_updateQueue h fun l => l.look_eq wait _).weaken fun _ => hPQ
    · exact leads_pure hPQ

/-- A job keeps what neither the installer nor the announcements of ends of installs can make
false. -/
theorem leads_work_by
    (h : Blind s [.errors, .pending, .tasks, .waits, .queue] [.installer] I)
    (hannounce : ∀ (languages : List String) b,
      Leads I (languages.forM (announce s b)) (fun _ => I) E) (j : Job) :
    Leads I (work s j) (fun _ => I) E := by
  have finished : ∀ (w : World σ) id p, I w → I (w.onLoop fun l => l.finish id p) := by
    intro w id p hw
    have h₁ := h.write .tasks (by simp) w _ (.tasks w.state (w.state.loop.setPhase id p).tasks) hw
    have h₂ := h.write .queue (by simp) _ _ (.queue _ (w.state.loop.finish id p).queue) h₁
    rw [World.onLoop, Loop.finish_eq]
    exact h₂
  have unassigned : ∀ (w : World σ) ls, I w →
      I { w with state := { w.state with gateway := w.state.gateway.unassign ls } } :=
    fun w ls hw => h.write .pending (by simp) w _ (.pending w.state _) hw
  refine leads_work (h.mono (by simp) (by simp)) (fun _ hw => hw) fun id _ => ?_
  refine leads_advance_of (fun _ hw _ => hw) fun t => ?_
  refine leads_advance (C := I) (fun _ hw => hw.2)
    (fun _ w hw => h.ask _ (by simp [Call.area]) w hw.1) (fun _ ticket w hw => ?_)
    (fun _ _ w hw => h.ask _ (by simp [Call.area]) w hw.1) (fun answer => ?_)
    (fun _ w hw => ⟨fun _ => finished w id _ hw.1, fun _ => ?_⟩) fun _ _ _ hw => hw.1
  · exact h.write .tasks (by simp) w _ (.tasks w.state _) hw
  · exact leads_conclude (Q := I) (T := fun _ => I) (h.mono (by simp) (by simp))
      (fun w => unassigned w t.languages) (hannounce t.languages) fun b w => finished w id _
  · exact finished _ id _ (unassigned w t.languages hw.1)

/-- A job keeps what neither the installer nor the ends of installs can make false. -/
theorem leads_work_quiet
    (h : Blind s [.errors, .pending, .tasks, .waits, .queue] [.installer] I)
    (hu : ∀ l b, Withstands s l b I) (j : Job) : Leads I (work s j) (fun _ => I) E :=
  leads_work_by h (fun _ b => leads_announceAll fun l _ => hu l b) j

end Install

end TreeFeatures
