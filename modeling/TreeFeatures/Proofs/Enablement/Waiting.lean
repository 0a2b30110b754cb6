import TreeFeatures.Proofs.Install.SingleFlight

/-!
# Documents that wait

Which documents keep waiting for an install, and which are lost. All that matters for a language is
its `View`: the documents that wait, who hears about the install, the task that runs it, and how
many reports there were.

* `view_dispatch`, `view_unheard`: requests, and the ends of other installs, let a view grow.
* `view_enqueue`, `accept_joins`: a document that is put on the list joins once its request is
  accepted.
* `leads_installFor_running`, `leads_installFor_stopped`: a document that attaches while the loop
  runs joins those that wait. While the loop does not run, all that wait are dropped.
* `leads_conclude_served`: the end of the install is reported, and nobody waits after it.
* `exec_view`, `exec_abandons`: what a step means for the documents that wait.
* `exec_reported`, `exec_work_served`: the step after which the task is over.
* `waiter_stays_iff`: the result. A document that waits goes on waiting until the install is
  reported, exactly as long as no document of the language attaches while the loop does not run.
-/

namespace TreeFeatures.Enablement

open Act Install

/-- How often the enablement was told about the end of the install of a language. -/
def reports (l : String) (trace : List Event) : Nat :=
  trace.countP fun
    | .told .enablement l' _ => l' = l
    | _ => false

/-- What matters about a language for the documents that wait for it. -/
structure View where
  waiters : List Waiter
  listeners : List Callback
  /-- The task that installs the language. -/
  task : Option TaskId
  /-- How many reports there were. -/
  reports : Nat

namespace View

/-- More listeners, and perhaps a task. -/
structure Grows (v v' : View) : Prop where
  waiters : v'.waiters = v.waiters
  listeners : v.listeners ⊆ v'.listeners
  task : ∀ id, v.task = some id → v'.task = some id
  reports : v'.reports = v.reports

/-- A document joins those that wait, and the enablement hears about the install. -/
structure Joins (v v' : View) : Prop where
  waiters : v.waiters ⊆ v'.waiters
  listeners : v.listeners ⊆ v'.listeners
  hears : .enablement ∈ v'.listeners
  task : ∀ id, v.task = some id → v'.task = some id
  installs : v'.task ≠ none
  reports : v'.reports = v.reports

/-- A document was put on a list, and it is the list of another language in the given case. -/
structure Enqueued (other : Prop) (v v' : View) : Prop where
  waiters : v.waiters ⊆ v'.waiters
  listeners : v'.listeners = v.listeners
  task : v'.task = v.task
  reports : v'.reports = v.reports
  same : other → v'.waiters = v.waiters

theorem Enqueued.eq {other : Prop} {v v' : View} (h : v.Enqueued other v') (ho : other) :
    v' = v := by
  cases v
  cases v'
  simp only [mk.injEq]
  exact ⟨h.same ho, h.listeners, h.task, h.reports⟩

/-- No document waits any more. -/
def drop (v : View) : View := { v with waiters := [] }

/-- A property that a view has as long as nobody drops the documents that wait. -/
structure Steady (F : View → Prop) : Prop where
  grows : ∀ v v', v.Grows v' → F v → F v'
  joins : ∀ v v', v.Joins v' → F v → F v'

end View

variable {σ : Type} {s : Surroundings σ}

/-- The view of a language in a world. -/
def view (l : String) (w : World σ) : View :=
  ⟨w.state.waitersOf l, w.state.gateway.listeners l, Assoc.get? w.state.gateway.pending l,
    reports l w.trace⟩

/-! ## How a view changes -/

variable {F G : View → Prop} {l l' : String} {E : World σ → Prop}

theorem reports_told (l : String) (c : Callback) (l' : String) (b : Bool) (trace : List Event) :
    reports l (.told c l' b :: trace) =
      reports l trace + if c = .enablement ∧ l' = l then 1 else 0 := by
  unfold reports
  rw [List.countP_cons]
  cases c <;> simp

theorem blind_view {parts : List Part} {areas : List Area} (hwaiters : Part.waiters ∉ parts)
    (hcallbacks : Part.callbacks ∉ parts) (hpending : Part.pending ∉ parts) :
    Blind s parts areas fun w => F (view l w) := by
  refine ⟨fun w l h => h, fun p hp w st hst h => ?_, fun c hc w h => h⟩
  cases hst with
  | waiters => exact absurd hp hwaiters
  | callbacks => exact absurd hp hcallbacks
  | pending => exact absurd hp hpending
  | _ => exact h

/-- A request that is accepted lets a view grow. -/
theorem accept_grows (w : World σ) (languages : List String) (callback : Option Callback) :
    (view l w).Grows
      (view l { w with state := Gateway.accept w.state (Gateway.requested languages) callback }) where
  waiters := by
    simp only [view, Gateway.accept_eq]
    rfl
  listeners c hc := by
    simp only [view, Gateway.accept_listeners]
    exact Gateway.listenAll_listeners _ _ _ hc
  task id hid := by
    simp only [view, Gateway.accept_pending] at hid ⊢
    rw [if_neg fun hf => by simp [hid] at hf]
    exact hid
  reports := rfl

theorem view_dispatch (hF : ∀ v v', v.Grows v' → F v → F v') (languages : List String)
    (callback : Option Callback) :
    Keeps (fun w => F (view l w)) (Gateway.dispatch s languages callback) :=
  Gateway.keeps_dispatch_of (blind_view (by simp) (by simp) (by simp)) fun w h _ =>
    hF _ _ (accept_grows w languages callback) h

/-- The end of the install of another language does not matter. -/
theorem view_unheard (hl : l' ≠ l) (hF : ∀ v v', v.Grows v' → F v → F v') :
    Unheard s l' fun w => F (view l w) where
  blind := blind_view (by simp) (by simp) (by simp)
  dequeue w h := by
    simp only [view, waitersOf_dequeue_of_ne _ hl]
    exact h
  forget w h := by
    simp only [view, Gateway.listeners_forget, if_neg hl]
    exact h
  told c b w h := by
    simp only [view, reports_told, hl, and_false, if_false, Nat.add_zero]
    exact h
  requested _ _ _ h := h
  dispatch r _ := view_dispatch hF r.languages r.callback

/-! ## Documents that attach -/

theorem view_enqueue (w : World σ) (x : Waiter) :
    (view l w).Enqueued (l' ≠ l) (view l { w with state := w.state.enqueue l' x }) := by
  refine ⟨?_, rfl, rfl, rfl, fun hl => waitersOf_enqueue_of_ne _ _ hl⟩
  by_cases hl : l' = l
  · subst hl
    exact fun y hy => mem_waitersOf_enqueue.mpr (.inl hy)
  · rw [view, view, waitersOf_enqueue_of_ne _ _ hl]
    exact List.Subset.refl _

/-- A document that is on the list joins when the request for its language is accepted. -/
theorem accept_joins {other : Prop} {v : View} {w : World σ} (hl : l ≠ "")
    (hv : v.Enqueued other (view l w)) :
    v.Joins (view l { w with
      state := Gateway.accept w.state (Gateway.requested [l]) (some .enablement) }) := by
  have grows := accept_grows (l := l) w [l] (some .enablement)
  refine ⟨fun x hx => grows.waiters ▸ hv.waiters hx,
    fun x hx => grows.listeners (hv.listeners ▸ hx), ?_,
    fun id hid => grows.task id (hv.task ▸ hid), ?_, grows.reports.trans hv.reports⟩
  · rw [view, Gateway.accept_listeners, Gateway.requested_singleton hl]
    exact Gateway.mem_listenAll _ _ _ (by simp)
  · rw [view, Gateway.accept_pending, Gateway.requested_singleton hl]
    split
    · exact Option.some_ne_none _
    · next hf => simpa using hf

/-- The view had a property before a document was put on the list of a language. -/
def Had (F : View → Prop) (l' l : String) (w : World σ) : Prop :=
  ∃ v : View, F v ∧ v.Enqueued (l' ≠ l) (view l w)

/-- While the loop runs and there is an installer, a document that attaches joins. -/
theorem leads_installFor_running (hF : View.Steady F) (hl' : l' ≠ "") (document : Handle)
    (filetype : String) :
    Leads (fun w => (F (view l w) ∧ w.state.loop.isRunning = true) ∧
        w.state.gateway.installer = .present) (installFor s document filetype l')
      (fun _ w => F (view l w) ∧ w.state.loop.isRunning = true) E := by
  -- after the document was put on the list it only has to be heard of
  refine (leads_update (Q := fun w => Had F l' l w ∧ w.state.gateway.installer = .present ∧
    w.state.loop.isRunning = true) fun w h => ?_).bind fun _ => ?_
  · exact ⟨⟨view l w, h.1.1, view_enqueue w _⟩, h.2, h.1.2⟩
  have hwanted : Gateway.requested [l'] = [l'] := Gateway.requested_singleton hl'
  refine Leads.bind (Q := fun r w => r ≠ none ∧ F (view l w) ∧ w.state.loop.isRunning = true)
    (Gateway.leads_dispatch_accepted (fun _ _ _ h => h) (fun w h => h.2) (by simp [hwanted])
      fun w h => ⟨?_, ?_, ?_⟩) fun r => ?_
  · exact Gateway.acceptedBy_ne_none (by simp [hwanted])
  · obtain ⟨⟨v, hv, enqueued⟩, -⟩ := h
    by_cases hl : l' = l
    · subst hl
      exact hF.joins v _ (accept_joins hl' enqueued) hv
    · rw [← enqueued.eq hl] at hv
      exact hF.grows _ _ (accept_grows w [l'] (some .enablement)) hv
  · simp only [Gateway.accept_eq]
    split <;> exact h.2.2
  · cases r with
    | none => exact fun w h => absurd rfl h.1
    | some id => exact leads_pure fun w h => h.2

/-- While the loop does not run, nothing is installed, and all documents that wait for the language
are dropped. -/
theorem leads_installFor_stopped (hF : l' ≠ l → ∀ v, F v → G v) (hdrop : l' = l → ∀ v, F v → G v.drop)
    (document : Handle) (filetype : String) :
    Leads (fun w => F (view l w) ∧ w.state.loop.isRunning = false)
      (installFor s document filetype l') (fun _ w => G (view l w)) E := by
  have had : Blind s [.installer] [.discovery] (Had F l' l) :=
    blind_view (F := fun v' => ∃ v : View, F v ∧ v.Enqueued (l' ≠ l) v') (by simp) (by simp) (by simp)
  refine (leads_update (Q := fun w => Had F l' l w ∧ w.state.loop.isRunning = false)
    fun w h => ?_).bind fun _ => ?_
  · exact ⟨⟨view l w, h.1, view_enqueue w _⟩, h.2⟩
  refine Leads.bind (Q := fun r w => r = none ∧ Had F l' l w ∧ w.state.loop.isRunning = false)
    (Gateway.leads_dispatch (had.and (blind_running (by simp))) (fun _ _ _ h => h) (fun w h => ⟨rfl, h⟩) fun w h _ hr => ?_)
    fun r => ?_
  · rw [h.2] at hr
    cases hr
  · cases r with
    | some id => exact fun w h => nomatch h.1
    | none =>
      refine leads_update fun w h => ?_
      obtain ⟨-, ⟨v, hv, enqueued⟩, -⟩ := h
      by_cases hl : l' = l
      · have dropped := hdrop hl v hv
        subst hl
        rw [View.drop, ← enqueued.listeners, ← enqueued.task, ← enqueued.reports] at dropped
        simp only [view, waitersOf_dequeue_self]
        exact dropped
      · simp only [view, waitersOf_dequeue_of_ne _ hl]
        rw [← enqueued.eq hl] at hv
        exact hF hl _ hv

/-- A call that drops the documents that wait for a language: it is made while the loop does not
run, and decides to install the language for a document. -/
def Abandons (s : Surroundings σ) (l : String) : Step σ → World σ → Prop
  | .call false o, w => ∃ a : Aim, ((aim s o).run (w.setRunning false)).1 = .ok (some a) ∧
      a.2.2.decision = .install ∧ a.2.2.language = l
  | _, _ => False

/-- A call, unless it drops the documents that wait. -/
theorem exec_call_view {b : Bool} {o : Operation} {w : World σ} (hF : View.Steady F)
    (hdrop : Abandons s l (.call b o) w → ∀ v, F v → F v.drop) (h : F (view l w)) :
    F (view l (exec s (.call b o) w)) := by
  have blind : Blind s quietParts [.features, .options, .editor, .discovery] fun w => F (view l w) :=
    blind_view (by simp) (by simp) (by simp)
  have dispatch : ∀ b ls cb, Keeps (fun w => F (view l w) ∧ w.state.loop.isRunning = b)
      (Gateway.dispatch s ls cb) := fun b ls cb =>
    (view_dispatch hF.grows ls cb).and (running_dispatch ls cb)
  refine exec_call_of (I := fun w => F (view l w)) (fun _ _ h => h) ?_
  cases b with
  | true =>
    exact (perform_keeps (w := w.setRunning true) (blind.and (blind_running (by simp)))
      (fun _ document filetype l' hl' => leads_installFor_running hF hl' document filetype)
      (fun ls cb _ => dispatch true ls cb) ⟨h, rfl⟩).1
  | false =>
    by_cases ho : o.Attaches
    · rw [perform_eq ho]
      have aimed := ((keeps_aim (blind.mono (by simp) (by simp)) o).and
        (keeps_aim (blind_running (by simp)) o)).leads_run (w := w.setRunning false) ⟨h, rfl⟩
      have weak : ∀ v : World σ, F (view l v) ∧ v.state.loop.isRunning = false → F (view l v) :=
        fun v h => h.1
      refine (Leads.bind (aimed.mono (fun _ h => h) (fun _ _ h => h) weak) fun a v hv => ?_).run rfl
      refine leads_follow (P := fun v => F (view l v) ∧ v.state.loop.isRunning = false)
        (blind.mono (by simp) (by simp)) weak a (fun c hc hd => ?_) v hv.1
      obtain rfl := Option.mem_def.mp hc
      refine leads_installFor_stopped (fun _ _ h => h) (fun hl => hdrop ⟨c, ?_, hd, hl⟩) c.1 c.2.1
      rw [hv.2]
    · exact (perform_keeps (w := w.setRunning false) (blind.and (blind_running (by simp)))
        (fun ha => absurd ha ho) (fun ls cb _ => dispatch false ls cb) ⟨h, rfl⟩).1

/-- A call that drops the documents that wait. -/
theorem exec_abandons {y : Step σ} {w : World σ} (hy : Abandons s l y w)
    (hF : ∀ v, F v → G v.drop) (h : F (view l w)) : G (view l (exec s y w)) := by
  obtain ⟨o, rfl⟩ : ∃ o, y = .call false o := by
    cases y with
    | call b o =>
      cases b with
      | false => exact ⟨o, rfl⟩
      | true => exact hy.elim
    | _ => exact hy.elim
  obtain ⟨a, ha, hd, hl⟩ := hy
  have ho : o.Attaches := by
    cases o with
    | attach _ _ => trivial
    | filetypeEvent _ _ => trivial
    | _ => cases ha
  have blind : Blind s Enablement.planParts [.editor, .discovery] fun w => F (view l w) :=
    blind_view (by simp) (by simp) (by simp)
  refine exec_call_of (I := fun w => G (view l w)) (fun _ _ h => h) ?_
  rw [perform_eq ho]
  have aimed := ((keeps_aim blind o).and (keeps_aim (blind_running (by simp)) o))
    (w.setRunning false) ⟨h, rfl⟩
  rcases hr : (aim s o).run (w.setRunning false) with ⟨_ | b, v⟩
  · rw [hr] at ha
    cases ha
  · rw [hr] at ha aimed
    obtain rfl := Except.ok.inj ha
    rw [run_bind_of_ok _ hr]
    have followed : Leads (fun v => F (view l v) ∧ v.state.loop.isRunning = false)
        (follow s (some a)) (fun _ w => G (view l w)) (fun w => G (view l w)) := by
      simp only [follow, carryOut, hd, bind_assoc]
      refine (leads_installFor_stopped (fun hne => absurd hl hne) (fun _ => hF) _ _).bind fun _ => ?_
      exact leads_pure fun _ h => h
    exact followed.run aimed

/-! ## The end of an install -/

/-- The enablement hears about the install, and has heard of some number of them. -/
def Listening (n : Nat) (v : View) : Prop := .enablement ∈ v.listeners ∧ v.reports = n

/-- The enablement has heard of one more install, and no document waits. -/
def Served (n : Nat) (v : View) : Prop := v.waiters = [] ∧ n < v.reports

variable {n : Nat}

theorem Listening.grows (v v' : View) (hv : v.Grows v') (h : Listening n v) : Listening n v' :=
  ⟨hv.listeners h.1, hv.reports.trans h.2⟩

theorem Served.grows (v v' : View) (hv : v.Grows v') (h : Served n v) : Served n v' :=
  ⟨hv.waiters.trans h.1, hv.reports ▸ h.2⟩

/-- Once the enablement was told, no document waits. -/
theorem leads_installed_served (success : Bool) :
    Leads (fun w => n < (view l w).reports) (installed s l success)
      (fun _ w => Served n (view l w)) (fun w => Served n (view l w)) := by
  refine leads_state_any.bind fun st => ?_
  refine (leads_update (Q := fun w => Served n (view l w)) fun w h => ?_).bind fun _ => ?_
  · exact ⟨waitersOf_dequeue_self _ _, h⟩
  · have kept : Keeps (fun w => Served n (view l w))
        (judgeInstall s l success (st.waitersOf l)) :=
      keeps_judgeInstall (blind_view (by simp) (by simp) (by simp)) _ _ _
    exact kept.leads

/-- The enablement is among those who are still to be told about the install, or was told already. -/
def Owed (l : String) (n : Nat) (rest : List Callback) (w : World σ) : Prop :=
  (.enablement ∈ rest ∧ (view l w).reports = n) ∨ Served n (view l w)

theorem leads_tell_outside_owed {rest : List Callback} {success : Bool} (name : String) :
    Leads (Owed l n (.outside name :: rest)) (tell s l success (.outside name))
      (fun _ => Owed l n rest) E := by
  have blind : Blind s [] [.listener] (Owed (σ := σ) l n rest) :=
    ⟨fun _ _ h => h, nofun, fun _ _ _ h => h⟩
  have responded : Keeps (Owed l n rest) (respond s l success (.outside name)) := by
    refine keeps_respond_outside blind (fun _ _ _ h => h) (fun r _ => ?_) _ _ _
    refine Gateway.keeps_dispatch_of ⟨fun _ _ h => h, fun p hp w st hst h => ?_, fun _ _ _ h => h⟩
      fun w h _ => ?_
    · cases hst <;> first | exact h | simp at hp
    · exact h.imp_right (Served.grows _ _ (accept_grows w r.languages r.callback))
  refine (leads_emit (Q := Owed l n rest) fun w h => ?_).bind fun _ =>
    responded.leads.shielded fun _ _ h => h
  have hview : view l { w with trace := .told (.outside name) l success :: w.trace } = view l w := by
    simp [view, reports_told]
  refine h.imp (fun h => ⟨?_, hview ▸ h.2⟩) fun h => hview ▸ h
  simpa using h.1

theorem leads_tell_enablement_owed {rest : List Callback} {success : Bool} :
    Leads (Owed l n (.enablement :: rest)) (tell s l success .enablement)
      (fun _ => Owed l n rest) E := by
  refine (leads_emit (Q := fun w => n < (view l w).reports) fun w h => ?_).bind fun _ => ?_
  · have more : (view l w).reports < reports l (.told .enablement l success :: w.trace) := by
      simp [view, reports_told]
    rcases h with h | h
    · exact h.2 ▸ more
    · exact Nat.lt_trans h.2 more
  · exact ((leads_installed_served success).shielded fun _ _ h => h).weaken fun _ _ h => .inr h

/-- Telling everybody about the end of the install serves the documents that wait, if the
enablement listens. -/
theorem leads_announce_served (success : Bool) :
    Leads (fun w => Listening n (view l w)) (announce s success l)
      (fun _ w => Served n (view l w)) E := by
  intro w hw
  rw [announce, run_bind_of_ok _ (run_state w)]
  refine ((leads_update (P := fun v => v = w) (Q := Owed l n (w.state.gateway.listeners l)) ?_).bind
    fun _ => (Leads.forM (J := Owed l n) fun c rest => ?_).weaken fun _ _ h => ?_) w rfl
  · rintro v rfl
    exact .inl hw
  · cases c with
    | enablement => exact leads_tell_enablement_owed
    | outside name => exact leads_tell_outside_owed name
  · exact h.resolve_left fun h => nomatch h.1

/-- The install of the languages that are left is still to be announced for a language, or was
announced already. -/
def Due (l : String) (n : Nat) (rest : List String) (w : World σ) : Prop :=
  rest.Nodup ∧ if l ∈ rest then Listening n (view l w) else Served n (view l w)

/-- The same for an install of several languages. -/
theorem leads_announceAll_served {languages : List String} (hl : l ∈ languages)
    (hn : languages.Nodup) (success : Bool) :
    Leads (fun w => Listening n (view l w)) (languages.forM (announce s success))
      (fun _ w => Served n (view l w)) E := by
  have one : ∀ x rest, Leads (Due l n (x :: rest)) (announce s success x) (fun _ => Due l n rest) E := by
    rintro x rest w ⟨hx, hw⟩
    obtain ⟨hx, hrest⟩ := List.nodup_cons.mp hx
    by_cases hxl : x = l
    · subst hxl
      rw [if_pos List.mem_cons_self] at hw
      refine (leads_announce_served success).weaken (fun _ v h => ⟨hrest, ?_⟩) w hw
      rw [if_neg hx]
      exact h
    · have hmem : l ∈ x :: rest ↔ l ∈ rest := by simp [Ne.symm hxl]
      simp only [hmem] at hw
      have unheard : Unheard s x fun v => if l ∈ rest then Listening n (view l v)
          else Served n (view l v) := by
        split
        · exact view_unheard hxl Listening.grows
        · exact view_unheard hxl Served.grows
      exact (unheard.withstands success).leads_announce.weaken (fun _ v h => ⟨hrest, h⟩) w hw
  have hstart : ∀ w : World σ, Listening n (view l w) → Due l n languages w := fun w h =>
    ⟨hn, by rw [if_pos hl]; exact h⟩
  exact (Leads.forM one).mono hstart (fun _ w h => by simpa [Due] using h.2) fun _ h => h

/-- The end of the install serves the documents that wait. -/
theorem leads_conclude_served {id : TaskId} {t : Task} (hl : l ∈ t.languages)
    (hn : t.languages.Nodup) (answer : Except Fault Value) :
    Leads (fun w => Listening n (view l w) ∧ HasTask id t w) (conclude s id t.languages answer)
      (fun _ w => Served n (view l w) ∧ ∃ u, HasTask id u w ∧ u.phase.isOver = true) E := by
  refine leads_conclude (Q := fun w => Listening n (view l w) ∧ HasTask id t w)
    (T := fun _ w => Served n (view l w) ∧ HasTask id t w) ?_ (fun w h => h) (fun b => ?_)
    fun b w h => ⟨h.1, ?_⟩
  · exact (blind_view (by simp) (by simp) (by simp)).and (blind_hasTask (by simp))
  · have told : Leads (HasTask id t) (t.languages.forM (announce s b)) (fun _ => HasTask id t) E :=
      leads_announceAll fun l' _ => (hasTask_unheard l').withstands b
    exact (leads_announceAll_served hl hn b).and told
  · refine ⟨_, h.2.finish id (.finished b), ?_⟩
    rw [if_pos rfl]
    rfl

/-- The end of another install does not matter. -/
theorem leads_conclude_other {id : TaskId} {languages : List String} (hl : l ∉ languages)
    (hF : ∀ v v', v.Grows v' → F v → F v') (answer : Except Fault Value) :
    Leads (fun w => F (view l w)) (conclude s id languages answer) (fun _ w => F (view l w)) E := by
  refine leads_conclude (Q := fun w => F (view l w)) (T := fun _ w => F (view l w))
    (blind_view (by simp) (by simp) (by simp)) (fun w h => ?_) (fun b => ?_) fun b w h => h
  · simp only [view, Gateway.unassign, Assoc.get?_foldl_remove, if_neg hl]
    exact h
  · refine leads_announceAll fun l' hl' => (view_unheard (fun e => hl ?_) hF).withstands b
    exact e ▸ hl'

/-! ## Steps -/

variable {R : List String → Prop}

/-- The enablement expects the end of an install that a task runs. -/
structure Expects (id : TaskId) (n : Nat) (v : View) : Prop where
  listening : Listening n v
  task : v.task = some id

theorem Expects.steady (id : TaskId) (n : Nat) : View.Steady (Expects id n) where
  grows _ _ hv h := ⟨h.listening.grows _ _ hv, hv.task id h.task⟩
  joins _ _ hv h := ⟨⟨hv.hears, hv.reports.trans h.listening.2⟩, hv.task id h.task⟩

/-- The end of the install was reported, and its task is over. -/
def Reported (l : String) (id : TaskId) (n : Nat) (w : World σ) : Prop :=
  Served n (view l w) ∧ ∃ u, HasTask id u w ∧ u.phase.isOver = true

/-- What a step of a task means for the documents that wait for an install: they wait on, or the
install was reported. -/
theorem leads_advance_view {id : TaskId} (hF : View.Steady F)
    (hexpects : ∀ v, F v → Expects id n v) (i : TaskId) :
    Leads (fun v => F (view l v) ∧ Sound R none v) (advance s i)
      (fun _ v => F (view l v) ∨ Reported l id n v) E := by
  refine leads_advance_of (fun _ h _ => .inl h.1) fun t v₀ hv₀ => ?_
  have uncancelled := hv₀.1.2.state.uncancelled i t hv₀.2
  have orderly := hv₀.1.2.state.orderly i t hv₀.2
  -- while the task is in flight, it is the one of the language, or has nothing to do with it
  have own : t.phase.isOver = false → l ∈ t.languages → i = id := by
    intro ho hl
    have h₁ := (hv₀.1.2.state.mem_languages ⟨hv₀.2, ho⟩).mp hl
    exact Option.some.inj (h₁.symm.trans (hexpects _ hv₀.1.1).task)
  refine leads_advance (P := fun v => F (view l v) ∧ HasTask i t v)
    (C := fun v => (F (view l v) ∧ HasTask i t v) ∧ t.phase.isOver = false)
    (fun _ h => h.2) (fun hp _ h => ⟨h, by rw [hp]; rfl⟩) (fun _ _ _ h => .inl h.1.1)
    (fun _ hp _ h => ⟨h, by rw [hp]; rfl⟩) (fun answer => ?_)
    (fun hc => by rw [uncancelled] at hc; cases hc) (fun _ _ _ h => .inl h.1) v₀ ⟨hv₀.1.1, hv₀.2⟩
  rintro v ⟨hv, ho⟩
  by_cases hl : l ∈ t.languages
  · obtain rfl := own ho hl
    exact ((leads_conclude_served hl orderly.nodup answer).weaken fun _ _ h => .inr h) v
      ⟨(hexpects _ hv.1).listening, hv.2⟩
  · exact ((leads_conclude_other hl hF.grows answer).weaken fun _ _ h => .inl h) v hv.1

/-- In every step they wait on, or the install is reported. -/
theorem exec_view {y : Step σ} {w : World σ} {id : TaskId} (hy : ∀ i, y ≠ .cancel i)
    (h : Sound R none w) (hF : View.Steady F) (hexpects : ∀ v, F v → Expects id n v)
    (hdrop : Abandons s l y w → ∀ v, F v → F v.drop) (hv : F (view l w)) :
    F (view l (exec s y w)) ∨ Reported l id n (exec s y w) := by
  cases y with
  | call b o => exact .inl (exec_call_view hF hdrop hv)
  | work j =>
    have blind : Blind s [.waits, .queue] [] fun v => F (view l v) ∧ Sound R none v :=
      (blind_view (by simp) (by simp) (by simp)).and (blind_sound (by simp) (by simp) (by simp))
    have worked : Leads (fun v => F (view l v) ∧ Sound R none v) (work s j)
        (fun _ v => F (view l v) ∨ Reported l id n v) (fun v => F (view l v) ∨ Reported l id n v) :=
      leads_work blind (fun _ h => .inl h.1) fun i _ => leads_advance_view hF hexpects i
    exact exec_work_of (I := fun v => F (view l v) ∨ Reported l id n v) (fun _ _ h => h) (.inl hv)
      (worked.run ⟨hv, h.congr rfl rfl⟩)
  | answer ticket => exact .inl hv
  | cancel id => exact absurd rfl (hy id)
  | wait language => exact .inl hv
  | meanwhile f => exact .inl hv

/-- A step after which the task is over is the one in which the install is reported. -/
theorem exec_reported {y : Step σ} {w : World σ} {id : TaskId} {u : Task} (hy : ∀ i, y ≠ .cancel i)
    (h : Sound (fun _ => True) none w) (hv : Expects id n (view l w))
    (hu : HasTask id u (exec s y w)) (ho : u.phase.isOver = true) :
    Reported l id n (exec s y w) := by
  refine (exec_view hy h (Expects.steady id n) (fun _ h => h)
    (fun _ v hv => ⟨hv.listening, hv.task⟩) hv).resolve_left fun expects => ?_
  obtain ⟨u', hu', -, -⟩ :=
    ((exec_sound hy (fun _ _ => trivial) h).state.pending l id).mp expects.task
  obtain rfl := Option.some.inj (hu.symm.trans hu'.1)
  exact absurd (ho.symm.trans hu'.2) nofun

/-- Where documents wait, there is an install, and the enablement hears about it. -/
def Sheltered (v : View) : Prop := v.waiters = [] ∨ .enablement ∈ v.listeners ∧ v.task ≠ none

theorem Sheltered.steady : View.Steady Sheltered where
  grows v v' hv h := by
    rcases h with h | ⟨hc, ht⟩
    · exact .inl (hv.waiters.trans h)
    · obtain ⟨id, hid⟩ := Option.ne_none_iff_exists'.mp ht
      exact .inr ⟨hv.listeners hc, by rw [hv.task id hid]; exact nofun⟩
  joins _ _ hv _ := .inr ⟨hv.hears, hv.installs⟩

/-- The ends of installs make no document wait. -/
theorem unwaited_unheard (l l' : String) :
    Unheard s l' fun w => (view l w).waiters = [] where
  blind := blind_view (F := fun v => v.waiters = []) (by simp) (by simp) (by simp)
  dequeue w h := by
    by_cases hl : l' = l
    · subst hl
      exact waitersOf_dequeue_self _ _
    · exact (waitersOf_dequeue_of_ne _ hl).trans h
  forget _ h := h
  told _ _ _ h := h
  requested _ _ _ h := h
  dispatch r _ :=
    view_dispatch (F := fun v => v.waiters = []) (fun _ _ hv h => hv.waiters.trans h) r.languages
      r.callback

/-- Where no document waits, a job leaves it so. -/
theorem exec_work_unwaited {j : Job} {w : World σ} (hw : w.state.waitersOf l = []) :
    (exec s (.work j) w).state.waitersOf l = [] := by
  have worked : Leads (fun v => (view l v).waiters = []) (work s j)
      (fun _ v => (view l v).waiters = []) fun v => (view l v).waiters = [] := by
    refine leads_work_quiet ⟨fun _ _ h => h, fun p hp w st hst h => ?_, fun _ _ _ h => h⟩
      (fun l' => (unwaited_unheard l l').withstands) j
    cases hst <;> first | exact h | simp at hp
  exact exec_work_of (I := fun v => (view l v).waiters = []) (fun _ _ h => h) hw (worked.run hw)

theorem exec_sheltered {y : Step σ} {w : World σ} (hy : ∀ i, y ≠ .cancel i) (h : Sound R none w)
    (hv : Sheltered (view l w)) : Sheltered (view l (exec s y w)) := by
  by_cases hws : (view l w).waiters = []
  · cases y with
    | call b o => exact exec_call_view Sheltered.steady (fun _ _ _ => .inl rfl) hv
    | work j => exact .inl (exec_work_unwaited hws)
    | answer ticket => exact hv
    | cancel id => exact absurd rfl (hy id)
    | wait language => exact hv
    | meanwhile f => exact hv
  · obtain ⟨hc, ht⟩ := hv.resolve_left hws
    obtain ⟨id, hid⟩ := Option.ne_none_iff_exists'.mp ht
    have expects : Expects id (view l w).reports (view l w) := ⟨⟨hc, rfl⟩, hid⟩
    rcases exec_view hy h (Expects.steady id _) (fun _ h => h)
      (fun _ v hv => ⟨hv.listening, hv.task⟩) expects with h' | h'
    · exact .inr ⟨h'.listening.1, by rw [h'.task]; exact nofun⟩
    · exact .inl h'.1.1

/-- After a job in which a task is over, no document waits for a language of the task. -/
theorem exec_work_served {j : Job} {w : World σ} {id : TaskId} {t u : Task}
    (h : Sound (fun _ => True) none w) (hv : Sheltered (view l w)) (ht : InFlight w.state id t)
    (hl : l ∈ t.languages) (hu : HasTask id u (exec s (.work j) w)) (ho : u.phase.isOver = true) :
    (exec s (.work j) w).state.waitersOf l = [] := by
  by_cases hws : w.state.waitersOf l = []
  · exact exec_work_unwaited hws
  · have hears : .enablement ∈ (view l w).listeners := (hv.resolve_left hws).1
    have expects : Expects id (view l w).reports (view l w) :=
      ⟨⟨hears, rfl⟩, (h.state.mem_languages ht).mp hl⟩
    have uncancelled : ∀ i, (.work j : Step σ) ≠ .cancel i := fun _ => nofun
    exact (exec_reported uncancelled h expects hu ho).1.1

/-! ## Runs -/

theorem run_sheltered {steps : List (Step σ)} {w : World σ} (hw : Initial w)
    (hc : NoCancel steps) :
    Sound (fun _ => True) none (run s steps w) ∧ Sheltered (view l (run s steps w)) := by
  refine run_induction (I := fun w => Sound (fun _ => True) none w ∧ Sheltered (view l w))
    (fun y hy w h => ?_) ⟨sound_initial hw, .inl ?_⟩
  · have hne : ∀ i, y ≠ .cancel i := fun i e => hc i (e ▸ hy)
    exact ⟨exec_sound hne (fun _ _ => trivial) h.1, exec_sheltered hne h.1 h.2⟩
  · have : w.state.waiters = [] := by rw [hw.state]
    simp [view, State.waitersOf, this, Assoc.get?]

/-- What every step keeps as long as the install of a language goes on. -/
theorem view_run {w : World σ} {id : TaskId} (h : Sound R none w) (hF : View.Steady F)
    (hexpects : ∀ v, F v → Expects id n v) {more : List (Step σ)} (hc : NoCancel more)
    (hflight : ∀ m, m <+: more → ∃ u, InFlight (run s m w).state id u)
    (hdrop : ∀ m y, m ++ [y] <+: more → Abandons s l y (run s m w) → ∀ v, F v → F v.drop)
    (hv : F (view l w)) : ∀ m, m <+: more → F (view l (run s m w)) := by
  intro m
  induction m using List.reverseRecOn with
  | nil => exact fun _ => hv
  | append_singleton m y ih =>
    intro hm
    obtain ⟨hcm, hy⟩ := hc.step hm
    have before := ih ((List.prefix_append m [y]).trans hm)
    have after := exec_view hy (h.run hcm) hF hexpects (hdrop m y hm) before
    obtain ⟨u, hu, ho⟩ := hflight _ hm
    rw [run_append] at hu ⊢
    refine after.resolve_right fun reported => ?_
    obtain ⟨u', hu', hover⟩ := reported.2
    obtain rfl := Option.some.inj (hu.symm.trans hu')
    rw [hover] at ho
    cases ho

/-- **Documents that wait.** A document `x` waits for a language in a world that some run ends in.
Then a task installs the language, and along every further run, as long as that task is in flight:

* the enablement is not told about an install of the language;
* `x` waits all the time, if and only if no call is made that drops the documents that wait: one
  while the loop does not run that decides to install the language for some document;
* in the step in which the task is over, the enablement is told about it. -/
theorem waiter_stays_iff {w₀ : World σ} (hw : Initial w₀) {steps : List (Step σ)}
    (hc : NoCancel steps) {w : World σ} (hrun : run s steps w₀ = w) {x : Waiter}
    (hx : x ∈ w.state.waitersOf l) :
    ∃ id t, InFlight w.state id t ∧ l ∈ t.languages ∧
      ∀ more : List (Step σ), NoCancel more →
        (∀ m, m <+: more → ∃ u, InFlight (run s m w).state id u) →
        reports l (run s more w).trace = reports l w.trace ∧
        ((∀ m, m <+: more → x ∈ (run s m w).state.waitersOf l) ↔
          ∀ m y, m ++ [y] <+: more → ¬ Abandons s l y (run s m w)) ∧
        ∀ y u, (∀ i, y ≠ .cancel i) → HasTask id u (run s (more ++ [y]) w) →
          u.phase.isOver = true → reports l w.trace < reports l (run s (more ++ [y]) w).trace := by
  obtain ⟨sound, sheltered⟩ := run_sheltered (l := l) (s := s) hw hc
  rw [hrun] at sound sheltered
  obtain ⟨hears, installs⟩ := sheltered.resolve_left (List.ne_nil_of_mem hx)
  obtain ⟨id, hid⟩ := Option.ne_none_iff_exists'.mp installs
  obtain ⟨t, ht, -, hl⟩ := (sound.state.pending l id).mp hid
  refine ⟨id, t, ht, hl, fun more hmore hflight => ?_⟩
  have expects : Expects id (reports l w.trace) (view l w) := ⟨⟨hears, rfl⟩, hid⟩
  have expected := view_run sound (Expects.steady id _) (fun _ h => h) hmore hflight
    (fun _ _ _ _ v hv => ⟨hv.listening, hv.task⟩) expects
  refine ⟨(expected more List.prefix_rfl).listening.2, ⟨?_, ?_⟩, ?_⟩
  · intro stays m y hm abandons
    have before := expected m ((List.prefix_append m [y]).trans hm)
    have dropped : (view l (exec s y (run s m w))).waiters = [] :=
      exec_abandons (G := fun v => v.waiters = []) abandons (fun _ _ => rfl) before
    have := stays _ hm
    rw [run_append] at this
    exact List.ne_nil_of_mem this dropped
  · intro kept m hm
    have steady : View.Steady fun v => x ∈ v.waiters ∧ Expects id (reports l w.trace) v :=
      ⟨fun v v' hv h => ⟨hv.waiters ▸ h.1, (Expects.steady id _).grows v v' hv h.2⟩,
        fun v v' hv h => ⟨hv.waiters h.1, (Expects.steady id _).joins v v' hv h.2⟩⟩
    exact (view_run sound steady (fun _ h => h.2) hmore hflight
      (fun m y hm abandons => absurd abandons (kept m y hm)) ⟨hx, expects⟩ m hm).1
  · intro y u hy hu ho
    have before := expected more List.prefix_rfl
    rw [run_append] at hu ⊢
    exact (exec_reported hy (sound.run hmore) before hu ho).1.2

/-- The editor of `openWorld` with lua among the managed languages, installed when needed. -/
def luaWorld : World Script.Stage :=
  .equipped openWorld.outside { parsers := ["lua"], flags := { autoInstall := true } }

/-- A document that waits for lua goes on waiting while another one attaches on the loop. -/
theorem waiter_stays_iff_onLoop :
    let s := Script.Stage.surroundings
    let first : Step Script.Stage := .call true (.attach (some (.number 1)) (some "lua"))
    let second : Step Script.Stage := .call true (.attach (some (.number 2)) (some "lua"))
    ⟨.number 1, "lua"⟩ ∈ (run s [second] (run s [first] luaWorld)).state.waitersOf "lua" := by
  intro s first second
  have hw : Initial luaWorld := ⟨rfl, rfl⟩
  have hc : NoCancel [first] := fun id => by simp [first]
  have hx : ⟨.number 1, "lua"⟩ ∈ (run s [first] luaWorld).state.waitersOf "lua" := by decide
  obtain ⟨id, t, ht, -, further⟩ := waiter_stays_iff hw hc rfl hx
  have hlength : (run s [first] luaWorld).state.loop.tasks.length = 1 := by decide
  obtain rfl : id = 0 := by
    have := (List.getElem?_eq_some_iff.mp ht.1).1
    rw [hlength] at this
    exact Nat.lt_one_iff.mp this
  refine (further [second] (fun id => by simp [second]) fun m hm => ?_).2.1.mpr (fun m y hm => ?_)
    [second] List.prefix_rfl
  · refine ⟨{ languages := ["lua"] }, ?_⟩
    rcases List.prefix_cons_iff.mp hm with rfl | ⟨k, rfl, hk⟩
    · exact ⟨by decide, rfl⟩
    · obtain rfl := List.prefix_nil.mp hk
      exact ⟨by decide, rfl⟩
  · obtain rfl : y = second := by
      have : y ∈ [second] := hm.subset (by simp)
      exact List.mem_singleton.mp this
    exact fun h => h

/-- A document that waits for lua is lost when another one attaches while the loop does not run: the
install goes on, nothing was reported, and nobody waits. -/
theorem waiter_lost :
    let s := Script.Stage.surroundings
    let steps : List (Step Script.Stage) := [.call true (.attach (some (.number 1)) (some "lua"))]
    let w := run s steps luaWorld
    let w' := exec s (.call false (.attach (some (.number 2)) (some "lua"))) w
    Initial luaWorld ∧ NoCancel steps ∧ ⟨.number 1, "lua"⟩ ∈ w.state.waitersOf "lua" ∧
      InFlight w'.state 0 { languages := ["lua"] } ∧ reports "lua" w'.trace = 0 ∧
      w'.state.waitersOf "lua" = [] := by
  refine ⟨⟨rfl, rfl⟩, fun id => by simp, by decide, ⟨by decide, rfl⟩, by decide, by decide⟩

end TreeFeatures.Enablement
