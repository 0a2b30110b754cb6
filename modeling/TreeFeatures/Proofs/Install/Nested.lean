import TreeFeatures.Proofs.Enablement.Reporting
import TreeFeatures.Proofs.Install.Delivery

/-!
# Requests by those who are told

Whoever is told about the end of an install may make requests of its own. The languages of the
install are no longer pending then, so that such a request may start a new task for one of them; but
the callbacks of those that are still to be announced are still in the table, and the callback of
the request joins them. It hears about the old install then, and not about its own.

* `Interlude`: a moment at the end of an install at which a listener makes a request.
  `Interlude.Within`: the end of an install comes to it.
* `Due`: a callback is registered for a language. `leads_announce_due`: telling everybody about the
  language tells it once; nothing else does.
* `leads_rest`: what the rest of the job means for the callback of the request.
* `leads_advance_due`, `leads_advance_undue`, `exec_due`, `run_due`: the callback hears about the end
  of a task in flight, not before and once.
* `nested_request`: the result. `nested_request_early` is a run in which the callback hears about the
  old install.
-/

namespace TreeFeatures.Install

open Act

/-! ## What a callback is told -/

/-- With which success a callback was told about a language, newest first. -/
def heard (c : Callback) (l : String) (trace : List Event) : List Bool :=
  ((tellings l trace).filter fun x => x.1 = c).map Prod.snd

variable {σ : Type} {s : Surroundings σ} {E : World σ → Prop} {c c' : Callback} {l l' : String}
  {k : List Bool} {b : Bool} {id : TaskId} {t : Task}

theorem heard_told (c c' : Callback) (l l' : String) (b : Bool) (trace : List Event) :
    heard c l (.told c' l' b :: trace) =
      if c' = c ∧ l' = l then b :: heard c l trace else heard c l trace := by
  unfold heard
  rw [tellings_told]
  by_cases hl : l' = l
  · by_cases hc : c' = c
    · simp [hl, hc]
    · simp [hl, hc]
  · simp [hl]

theorem blind_heard {parts : List Part} {areas : List Area} :
    Blind s parts areas fun w => heard c l w.trace = k :=
  ⟨fun _ _ h => h, fun _ _ _ _ _ h => h, fun _ _ _ h => h⟩

theorem heard_dispatch (languages : List String) (callback : Option Callback) :
    Keeps (fun w => heard c l w.trace = k) (Gateway.dispatch s languages callback) :=
  Gateway.keeps_dispatch_of blind_heard fun _ h _ => h

/-- Telling somebody tells nobody else, whatever the listener does. -/
theorem leads_tell_heard (c' : Callback) (l' : String) (b : Bool) :
    Leads (fun w => heard c l w.trace = k) (tell s l' b c')
      (fun _ w => heard c l w.trace = if c' = c ∧ l' = l then b :: k else k) E := by
  refine (leads_emit (Q := fun w => heard c l w.trace = if c' = c ∧ l' = l then b :: k else k)
    fun w hw => ?_).bind fun _ => ?_
  · rw [heard_told, hw]
  · refine (keeps_respond blind_heard (fun _ h => h) (fun _ _ _ h => h) (fun r _ => ?_) b
      c').leads.shielded fun _ _ h => h
    exact heard_dispatch r.languages r.callback

/-- Telling several callbacks tells each of them once. -/
theorem leads_tellAll_heard {cs : List Callback} (hn : cs.Nodup) (l' : String) (b : Bool) :
    Leads (fun w => heard c l w.trace = k) (cs.forM (tell s l' b))
      (fun _ w => heard c l w.trace = if c ∈ cs ∧ l' = l then b :: k else k) E := by
  induction cs generalizing k with
  | nil => exact leads_pure fun w hw => by simpa using hw
  | cons c' rest ih =>
    obtain ⟨hc', hrest⟩ := List.nodup_cons.mp hn
    refine (leads_tell_heard c' l' b).bind fun _ => (ih hrest).weaken fun _ w hw => ?_
    rw [hw]
    by_cases e : c' = c
    · subst e
      simp [hc']
    · simp [e, Ne.symm e]

theorem heard_unheard (h : l' ≠ l) : Unheard s l' fun w => heard c l w.trace = k where
  blind := blind_heard
  dequeue _ h := h
  forget _ h := h
  told c' b w hw := by rw [heard_told, if_neg fun e => h e.2]; exact hw
  requested _ _ _ h := h
  dispatch r _ := heard_dispatch r.languages r.callback

/-! ## Callbacks that are registered -/

/-- A callback is registered for a language, and what it was told about the language. -/
structure Due (c : Callback) (l : String) (k : List Bool) (w : World σ) : Prop where
  heard : heard c l w.trace = k
  registered : c ∈ w.state.gateway.listeners l
  nodup : ∀ l, (w.state.gateway.listeners l).Nodup

theorem blind_due {parts : List Part} {areas : List Area} (h : Part.callbacks ∉ parts) :
    Blind s parts areas (Due c l k) := by
  refine ⟨fun _ _ hw => { hw with }, fun p hp w st hst hw => ?_,
    fun _ _ _ hw => { hw with }⟩
  cases hst with
  | callbacks => exact absurd hp h
  | _ => exact { hw with }

theorem Due.accept {w : World σ} (h : Due c l k w) (wanted : List String)
    (callback : Option Callback) :
    Due c l k { w with state := Gateway.accept w.state wanted callback } := by
  refine ⟨h.heard, ?_, fun l' => ?_⟩
  · rw [Gateway.accept_listeners]
    exact Gateway.listenAll_listeners _ callback wanted h.registered
  · rw [Gateway.accept_listeners]
    exact Enablement.nodup_listenAll h.nodup callback wanted l'

theorem due_dispatch (languages : List String) (callback : Option Callback) :
    Keeps (Due c l k) (Gateway.dispatch s languages callback) :=
  Gateway.keeps_dispatch_of (blind_due (by simp)) fun _ h _ => h.accept _ callback

/-- The end of the install of another language does not matter. -/
theorem due_unheard (h : l' ≠ l) : Unheard s l' (Due c l k) where
  blind := blind_due (by simp)
  dequeue _ hw := { hw with }
  forget w hw := by
    refine ⟨hw.heard, ?_, fun l'' => ?_⟩
    · rw [Gateway.listeners_forget, if_neg h]
      exact hw.registered
    · rw [Gateway.listeners_forget]
      split
      · exact List.nodup_nil
      · exact hw.nodup l''
  told c' b w hw := by
    refine ⟨?_, hw.registered, hw.nodup⟩
    rw [heard_told, if_neg fun e => h e.2]
    exact hw.heard
  requested _ _ _ hw := { hw with }
  dispatch r _ := due_dispatch r.languages r.callback

/-- Telling another callback does not matter either. -/
theorem leads_tell_due (h : l' = l → c' ≠ c) (b : Bool) :
    Leads (Due c l k) (tell s l' b c') (fun _ => Due c l k) E := by
  refine (leads_emit fun w hw => ?_).bind fun _ => (keeps_respond (blind_due (by simp))
    (fun w hw => ?_) (fun _ _ w hw => ?_) (fun r _ => ?_) b c').leads.shielded fun w _ hw => ?_
  · refine ⟨?_, hw.registered, hw.nodup⟩
    rw [heard_told, if_neg fun e => h e.2 e.1]
    exact hw.heard
  · exact { hw with }
  · exact { hw with }
  · exact due_dispatch r.languages r.callback
  · exact { hw with }

/-- Telling everybody about the language tells the callback once. -/
theorem leads_announce_due (b : Bool) :
    Leads (Due c l k) (announce s b l) (fun _ w => heard c l w.trace = b :: k) E := by
  intro w hw
  rw [announce, run_bind_of_ok _ (run_state w), run_bind_of_ok _ (run_update _ w)]
  refine ((leads_tellAll_heard (hw.nodup l) l b).weaken fun _ v hv => ?_) _ hw.heard
  rw [hv, if_pos ⟨hw.registered, rfl⟩]

/-- After the announcement of languages, a callback that was registered for a language was told about
it if it is one of them, and is still registered if not. -/
def Announced (languages : List String) (b : Bool) (c : Callback) (l : String) (k : List Bool)
    (w : World σ) : Prop :=
  if l ∈ languages then heard c l w.trace = b :: k else Due c l k w

theorem Announced.onLoop {languages : List String} {w : World σ} (h : Announced languages b c l k w)
    (f : Loop → Loop) : Announced languages b c l k (w.onLoop f) := by
  unfold Announced at h ⊢
  by_cases hl : l ∈ languages
  · rw [if_pos hl] at h ⊢
    exact h
  · rw [if_neg hl] at h ⊢
    exact { h with }

/-- Telling everybody about several languages. -/
theorem leads_announceAll_due {languages : List String} (hn : languages.Nodup) (b : Bool) :
    Leads (Due c l k) (languages.forM (announce s b)) (fun _ => Announced languages b c l k) E := by
  unfold Announced
  induction languages with
  | nil => exact leads_pure fun w hw => by simpa using hw
  | cons l' rest ih =>
    obtain ⟨hl', hrest⟩ := List.nodup_cons.mp hn
    by_cases e : l' = l
    · subst e
      simp only [List.mem_cons_self, if_true]
      refine (leads_announce_due b).bind fun _ => leads_announceAll fun l hl => ?_
      have other : l ≠ l' := fun e => hl' (e ▸ hl)
      exact (heard_unheard other).withstands b
    · have hmem : l ∈ l' :: rest ↔ l ∈ rest := by simp [Ne.symm e]
      simp only [hmem]
      exact ((due_unheard e).withstands b).leads_announce.bind fun _ => ih hrest

/-! ## Interludes -/

/-- A moment at the end of an install at which a listener makes a request: whom has been told, who
is still to be told, and what else the listener requests. -/
structure Interlude (σ : Type) where
  success : Bool
  /-- The languages of the install that were announced before. -/
  done : List String
  /-- The language that is being announced. -/
  language : String
  /-- The languages that are still to be announced. -/
  todo : List String
  /-- Who was told about the language before. -/
  told : List Callback
  /-- The listener. -/
  name : String
  /-- Who is still to be told about the language. -/
  others : List Callback
  /-- The requests of the listener that were made before. -/
  served : List Request
  request : Request
  /-- The requests of the listener that are still to be made. -/
  left : List Request
  failure : Option Fault
  /-- The world in which the request is made. -/
  world : World σ

namespace Interlude

variable (p : Interlude σ)

/-- The languages of the install. -/
def languages : List String := p.done ++ p.language :: p.todo

/-- What the listener does. -/
def reaction : Reaction := ⟨p.served ++ p.request :: p.left, p.failure⟩

/-- The end of an install, from the world in which the installer has answered, comes to an
interlude: the languages are announced one after the other, the listeners of each are told one after
the other, and each makes its requests one after the other. -/
def Within (s : Surroundings σ) (answer : Except Fault Value) (u : World σ) : Prop :=
  ∃ judged announced told : World σ,
    (judge p.languages answer).run u = (.ok p.success, judged) ∧
    (p.done.forM (announce s p.success)).run (judged.onGateway fun g => g.unassign p.languages) =
      (.ok (), announced) ∧
    announced.state.gateway.listeners p.language = p.told ++ .outside p.name :: p.others ∧
    (p.told.forM (tell s p.language p.success)).run
      (announced.onGateway fun g => g.forget p.language) = (.ok (), told) ∧
    (s.reply (.tell p.name p.language p.success) told.outside).1 = .ok p.reaction ∧
    (p.served.forM (serve s p.name)).run
      (afterCall s (.tell p.name p.language p.success)
        { told with trace := .told (.outside p.name) p.language p.success :: told.trace }) =
      (.ok (), p.world)

end Interlude

/-- In a job of a task that nobody asked to stop, the call of the installer returns: with the
languages of the task, the answer, and the world then. -/
inductive Returned (s : Surroundings σ) (i : TaskId) (v : World σ) :
    List String → Except Fault Value → World σ → Prop where
  | now {t : Task} {value : Value} : HasTask i t v → t.phase = .queued →
      t.cancelRequested = false →
      (s.reply (.install t.languages) v.outside).1 = .ok (.now value) →
      Returned s i v t.languages (.ok value) (afterCall s (.install t.languages) v)
  | failed {t : Task} {f : Fault} : HasTask i t v → t.phase = .queued →
      t.cancelRequested = false → (s.reply (.install t.languages) v.outside).1 = .error f →
      Returned s i v t.languages (.error f) (afterCall s (.install t.languages) v)
  | later {t : Task} {ticket : Nat} : HasTask i t v → t.phase = .awaiting ticket true →
      t.cancelRequested = false →
      Returned s i v t.languages (s.reply (.collect ticket) v.outside).1
        (afterCall s (.collect ticket) v)

variable {i : TaskId} {languages : List String} {answer : Except Fault Value} {u v w : World σ}

theorem run_advance_queued {t : Task} (ht : HasTask i t v) (hp : t.phase = .queued) :
    (advance s i).run v = (beginTask s i t).run v := by
  rw [advance, run_bind_of_ok _ (run_state v), show v.state.loop.tasks[i]? = some t from ht]
  dsimp only
  rw [hp]

theorem run_advance_awaiting {t : Task} {ticket : Nat} (ht : HasTask i t v)
    (hp : t.phase = .awaiting ticket true) :
    (advance s i).run v = (resumeTask s i t ticket).run v := by
  rw [advance, run_bind_of_ok _ (run_state v), show v.state.loop.tasks[i]? = some t from ht]
  dsimp only
  rw [hp]

/-- The job goes on with the end of the install. -/
theorem Returned.run_advance (h : Returned s i v languages answer u) :
    (advance s i).run v = (conclude s i languages answer).run u := by
  cases h with
  | now ht hp hc hr =>
    rw [run_advance_queued ht hp, beginTask, hc, if_neg (by simp),
      run_bind_of_ok _ (run_attempt _ v), run_ask, hr]
  | failed ht hp hc hr =>
    rw [run_advance_queued ht hp, beginTask, hc, if_neg (by simp),
      run_bind_of_ok _ (run_attempt _ v), run_ask, hr]
  | later ht hp hc =>
    rw [run_advance_awaiting ht hp, resumeTask, hc, if_neg (by simp),
      run_bind_of_ok _ (run_attempt _ v), run_ask]

/-- The task was in flight, and it still is. -/
theorem Returned.inFlight (h : Returned s i v languages answer u) :
    u.state = v.state ∧ ∃ t, InFlight v.state i t ∧ t.languages = languages := by
  cases h with
  | now ht hp _ _ => exact ⟨rfl, _, ⟨ht, by rw [hp]; rfl⟩, rfl⟩
  | failed ht hp _ _ => exact ⟨rfl, _, ⟨ht, by rw [hp]; rfl⟩, rfl⟩
  | later ht hp _ => exact ⟨rfl, _, ⟨ht, by rw [hp]; rfl⟩, rfl⟩

/-- A request that a listener makes keeps what no request can make false. -/
theorem keeps_serve {I : World σ → Prop} (name : String) {r : Request}
    (hrequested : ∀ name task w, I w → I { w with trace := .requested name task :: w.trace })
    (hdispatch : Keeps I (Gateway.dispatch s r.languages r.callback)) : Keeps I (serve s name r) :=
  hdispatch.bind fun _ => keeps_emit (hrequested name _)

namespace Interlude.Within

variable {p : Interlude σ} {I A B Q : World σ → Prop}

theorem reacts (h : p.Within s answer u) {r : Request} (hr : r ∈ p.reaction.requests) :
    Reacts s r := by
  obtain ⟨-, -, told, -, -, -, -, hreply, -⟩ := h
  exact ⟨p.name, p.language, p.success, told.outside, p.reaction, hreply, hr⟩

/-- What no end of an install makes false holds at an interlude, if it holds when the installer has
answered. -/
theorem keeps (h : p.Within s answer u) (hI : Blind s [.errors, .pending] [] I)
    (hu : ∀ l, Unheard s l I) (hw : I u) : I p.world := by
  have reacts : ∀ r ∈ p.served, Reacts s r := fun r hr => h.reacts (List.mem_append_left _ hr)
  obtain ⟨judged, announced, told, hjudged, hannounced, -, htold, -, hserved⟩ := h
  have judgedAll : Keeps I (judge p.languages answer) :=
    (leads_judge (hI.mono (by simp) (by simp)) p.languages answer).keeps
  have at₀ : I judged := judgedAll.of_run hjudged hw
  have freed := hI.write .pending (by simp) judged _
    (.pending judged.state (judged.state.gateway.unassign p.languages).pending) at₀
  have announcedAll : Keeps I (p.done.forM (announce s p.success)) :=
    Leads.keeps (leads_announceAll fun l _ => (hu l).withstands p.success)
  have toldAll : Keeps I (p.told.forM (tell s p.language p.success)) :=
    Keeps.forM fun c _ => (((hu _).withstands p.success).leads_tell c).keeps
  have servedAll : Keeps I (p.served.forM (serve s p.name)) :=
    Keeps.forM fun r hr =>
      keeps_serve p.name (hu p.language).requested ((hu p.language).dispatch r (reacts r hr))
  have at₁ : I announced := announcedAll.of_run hannounced freed
  have at₂ : I told := toldAll.of_run htold ((hu p.language).forget _ at₁)
  have at₃ := (hu p.language).blind.ask (.tell p.name p.language p.success) (by simp [Call.area]) _
    ((hu p.language).told (.outside p.name) p.success _ at₂)
  exact servedAll.of_run hserved at₃

/-- The rule for what is left of the job at an interlude. -/
theorem leads_rest (h : p.Within s answer u)
    (hserve : Leads (fun v => v = p.world) (serve s p.name p.request) (fun _ => A) A)
    (hleft : ∀ r ∈ p.left, Keeps A (serve s p.name r))
    (hlog : ∀ w l, A w → A { w with log := l })
    (hothers : Leads A (p.others.forM (tell s p.language p.success)) (fun _ => A) E)
    (htodo : Leads A (p.todo.forM (announce s p.success)) (fun _ => B) E)
    (hfinish : ∀ w, B w → Q (w.onLoop fun l => l.finish i (.finished p.success))) :
    Leads (fun v => v = u) (conclude s i p.languages answer) (fun _ => Q) E := by
  obtain ⟨judged, announced, told, hjudged, hannounced, hlisteners, htold, hreply, hserved⟩ := h
  -- the listener goes on with the request, and then with those that are left
  have responded : Leads
      (fun v => v = { told with trace := .told (.outside p.name) p.language p.success :: told.trace })
      (respond s p.language p.success (.outside p.name)) (fun _ => A) A := by
    refine Leads.bind (leads_of_run_eq (Prod.ext hreply rfl)) fun reaction => ?_
    refine Leads.assume fun e => ?_
    subst e
    refine Leads.bind (Q := fun _ => A) ?_ fun _ => ?_
    · simp only [reaction, forM_append_cons]
      refine Leads.bind (leads_of_run_eq hserved) fun _ => Leads.assume fun _ => ?_
      exact hserve.bind fun _ => (Keeps.forM hleft).leads
    · -- the listener may fail once it has served its requests
      dsimp only [reaction]
      cases p.failure with
      | none => exact leads_pure fun _ h => h
      | some f => exact keeps_fail.leads
  have announcedOne : Leads (fun v => v = announced) (announce s p.success p.language)
      (fun _ => A) E := by
    rintro v rfl
    rw [announce, run_bind_of_ok _ (run_state _), run_bind_of_ok _ (run_update _ _), hlisteners,
      forM_append_cons]
    refine (Leads.bind (leads_of_run_eq htold) fun _ => Leads.assume fun _ => ?_) _ rfl
    refine Leads.bind (Q := fun _ => A) ?_ fun _ => hothers
    refine (leads_emit fun w hw => ?_).bind fun _ => responded.shielded hlog
    rw [hw]
  refine Leads.bind (leads_of_run_eq hjudged) fun success => Leads.assume fun e => ?_
  subst e
  refine (leads_update (Q := fun v => v = judged.onGateway fun g => g.unassign p.languages)
    fun w hw => by rw [hw]; rfl).bind fun _ => ?_
  refine Leads.bind (Q := fun _ => B) ?_ fun _ => leads_update hfinish
  rw [languages, forM_append_cons]
  refine Leads.bind (leads_of_run_eq hannounced) fun _ => Leads.assume fun _ => ?_
  exact announcedOne.bind fun _ => htodo

end Interlude.Within

/-! ## The request -/

/-- A task that is to begin has a language. -/
def Begins (id : TaskId) (l : String) (w : World σ) : Prop :=
  ∃ t, HasTask id t w ∧ t.phase = .queued ∧ l ∈ t.languages

theorem blind_begins {parts : List Part} {areas : List Area} (h : Part.tasks ∉ parts) :
    Blind s parts areas (Begins id l) := by
  refine Blind.of_state (J := fun st => ∃ t, st.loop.tasks[id]? = some t ∧ t.phase = .queued ∧
    l ∈ t.languages) fun p hp st st' hst ht => ?_
  cases hst with
  | tasks => exact absurd hp h
  | _ => exact ht

theorem begins_dispatch (languages : List String) (callback : Option Callback) :
    Keeps (Begins id l) (Gateway.dispatch s languages callback) :=
  Gateway.keeps_dispatch_of (blind_begins (by simp)) fun _ ⟨t, ht, h⟩ _ =>
    ⟨t, Gateway.accept_task _ _ _ ht, h⟩

theorem begins_unheard (l' : String) : Unheard s l' (Begins id l) where
  blind := blind_begins (by simp)
  dequeue _ h := h
  forget _ h := h
  told _ _ _ h := h
  requested _ _ _ h := h
  dispatch r _ := begins_dispatch r.languages r.callback

/-- A request that is answered with a task registers its callback; a language that is not pending
goes to a new task. -/
theorem leads_dispatch_due {languages : List String} (hl : l ∈ Gateway.requested languages)
    (hfree : Assoc.get? w.state.gateway.pending l = none)
    (hnodup : ∀ l, (w.state.gateway.listeners l).Nodup) :
    Leads (fun v => v = w) (Gateway.dispatch s languages (some c))
      (fun r v => ∀ n, r = some n → n = w.state.loop.tasks.length ∧
        Due c l (heard c l w.trace) v ∧ Begins n l v) E := by
  let Same (v : World σ) : Prop := heard c l v.trace = heard c l w.trace ∧
    v.state.gateway.callbacks = w.state.gateway.callbacks ∧
    v.state.gateway.pending = w.state.gateway.pending ∧ v.state.loop.tasks = w.state.loop.tasks
  have blind : Blind s [.installer] [.discovery] Same := by
    refine blind_heard.and (Blind.of_state (J := fun st =>
      st.gateway.callbacks = w.state.gateway.callbacks ∧
      st.gateway.pending = w.state.gateway.pending ∧
      st.loop.tasks = w.state.loop.tasks) fun p hp st st' hst h => ?_)
    cases hst <;> first | exact h | simp at hp
  refine (Gateway.leads_dispatch (P := Same) blind (fun r v _ h n hn => ?_)
    (fun _ _ _ => nofun) fun v hv _ _ n hn => ?_).mono (fun v hv => ?_) (fun _ _ h => h) fun _ h => h
  · obtain ⟨hlast, due, begins⟩ := h n hn
    exact ⟨hlast, ⟨due.heard, due.registered, due.nodup⟩, begins⟩
  · obtain ⟨hheard, hcallbacks, hpending, htasks⟩ := hv
    have hlisteners : v.state.gateway.listeners = w.state.gateway.listeners := by
      unfold Gateway.listeners
      rw [hcallbacks]
    have hfree' : Assoc.get? v.state.gateway.pending l = none := hpending ▸ hfree
    obtain ⟨hfresh, hby, htask⟩ := Gateway.accept_new hl hfree' (some c)
    rw [hby] at hn
    cases hn
    refine ⟨congrArg List.length htasks, ⟨hheard, ?_, fun l' => ?_⟩, _, htask, rfl, hfresh⟩
    · rw [Gateway.accept_listeners]
      exact Gateway.mem_listenAll _ c _ hl
    · rw [Gateway.accept_listeners]
      exact Enablement.nodup_listenAll (hlisteners ▸ hnodup) (some c) _ l'
  · rw [hv]
    exact ⟨rfl, rfl, rfl, rfl⟩

/-- What is left of the job, for the callback of the request: it is told in this job if its language
is still to be announced, and is registered afterwards if not. -/
theorem leads_rest_due {p : Interlude σ} {n : TaskId} (h : p.Within s answer u)
    (hasked : (Gateway.dispatch s p.request.languages p.request.callback).run p.world =
      (.ok (some n), v)) (hbegins : Begins n l v) (hdue : Due c l k v)
    (hothers : p.language = l → c ∉ p.others) (htodo : p.todo.Nodup) (hi : i ≠ n) :
    Leads (fun v => v = u) (conclude s i p.languages answer)
      (fun _ w => Begins n l w ∧ Announced p.todo p.success c l k w) E := by
  let A (w : World σ) : Prop := Begins n l w ∧ Due c l k w
  let B (w : World σ) : Prop := Begins n l w ∧ Announced p.todo p.success c l k w
  have own : Leads (fun v => v = p.world) (serve s p.name p.request) (fun _ => A) A := by
    refine Leads.bind (leads_of_run_eq hasked) fun task => leads_emit fun w hw => ?_
    rw [hw.2]
    exact ⟨hbegins, { hdue with }⟩
  have kept : ∀ r : Request, Keeps A (serve s p.name r) := fun r =>
    keeps_serve p.name (fun _ _ _ h => ⟨h.1, { h.2 with }⟩)
      ((begins_dispatch r.languages r.callback).and (due_dispatch r.languages r.callback))
  refine h.leads_rest (B := B) own (fun r _ => kept r) (fun _ _ h => ⟨h.1, { h.2 with }⟩)
    (Leads.forM_mem fun c' hc' => ?_)
    ((leads_announceAll fun l' _ => (begins_unheard l').withstands p.success).and
      (leads_announceAll_due htodo p.success)) fun w hw => ?_
  · refine (((begins_unheard p.language).withstands p.success).leads_tell c').and
      (leads_tell_due (fun e hcc => ?_) p.success)
    exact hothers e (hcc ▸ hc')
  · obtain ⟨⟨t, ht, hp, hlt⟩, hw⟩ := hw
    have task := ht.finish i (.finished p.success)
    rw [if_neg hi] at task
    exact ⟨⟨t, task, hp, hlt⟩, hw.onLoop _⟩

/-! ## A task in flight -/

variable {R : List String → Prop} {n : TaskId}

/-- A callback is registered for a language, and there is a task. -/
def DueFrom (n : TaskId) (t : Task) (c : Callback) (l : String) (k : List Bool) (w : World σ) :
    Prop :=
  Due c l k w ∧ HasTask n t w

/-- The callback is still registered and the task in flight, or the task has ended and the callback
was told about it. -/
def Onward (n : TaskId) (languages : List String) (c : Callback) (l : String) (k : List Bool)
    (w : World σ) : Prop :=
  (Due c l k w ∧ ∃ u, InFlight w.state n u ∧ u.languages = languages) ∨
    ∃ u b, HasTask n u w ∧ u.phase = .finished b ∧ heard c l w.trace = b :: k

theorem blind_dueFrom {parts : List Part} {areas : List Area} (hcallbacks : Part.callbacks ∉ parts)
    (htasks : Part.tasks ∉ parts) : Blind s parts areas (DueFrom n t c l k) :=
  (blind_due hcallbacks).and (blind_hasTask htasks)

theorem DueFrom.onward (h : DueFrom n t c l k w) (ho : t.phase.isOver = false) :
    Onward n t.languages c l k w :=
  .inl ⟨h.1, t, ⟨h.2, ho⟩, rfl⟩

theorem DueFrom.setRunning (h : DueFrom n t c l k w) (b : Bool) :
    DueFrom n t c l k (w.setRunning b) :=
  ⟨{ h.1 with }, h.2⟩

theorem Onward.setRunning {languages : List String} (h : Onward n languages c l k w) (b : Bool) :
    Onward n languages c l k (w.setRunning b) :=
  h.imp_left fun h => ⟨{ h.1 with }, h.2⟩

/-- The task itself goes on: its end tells the callback. -/
theorem leads_advance_due (ho : t.phase.isOver = false) (hc : t.cancelRequested = false)
    (hn : t.languages.Nodup) (hl : l ∈ t.languages) :
    Leads (DueFrom n t c l k) (advance s n) (fun _ => Onward n t.languages c l k)
      (Onward n t.languages c l k) := by
  have called : Blind s [] [.installer] (DueFrom n t c l k) := blind_dueFrom (by simp) (by simp)
  refine leads_advance_going (P := DueFrom n t c l k) (C := DueFrom n t c l k) (fun v hv => hv.2) hc
    (fun _ v hv => called.ask _ (by simp [Call.area]) v hv) (fun _ ticket v hv => ?_)
    (fun _ _ v hv => called.ask _ (by simp [Call.area]) v hv) (fun answer => ?_)
    (fun _ _ v hv => hv.onward ho)
  · have task := Loop.setPhase_task v.state.loop n n (.awaiting ticket false)
    rw [if_pos rfl, show v.state.loop.tasks[n]? = some t from hv.2] at task
    exact .inl ⟨{ hv.1 with }, _, ⟨task, rfl⟩, rfl⟩
  · refine leads_conclude (Q := DueFrom n t c l k)
      (T := fun b v => heard c l v.trace = b :: k ∧ HasTask n t v)
      (blind_dueFrom (by simp) (by simp)) (fun v hv => ⟨{ hv.1 with }, hv.2⟩) (fun b => ?_)
      fun b v hv => ?_
    · refine ((leads_announceAll_due hn b).and (leads_announceAll fun l' _ =>
        (hasTask_unheard l').withstands b)).weaken fun _ v hv => ?_
      unfold Announced at hv
      rwa [if_pos hl] at hv
    · have task := hv.2.finish n (.finished b)
      rw [if_pos rfl] at task
      exact .inr ⟨_, b, task, rfl, hv.1⟩

/-- Another task goes on, which does not have the language if it is in flight. -/
theorem leads_advance_undue {j : TaskId} {u : Task} (hj : j ≠ n) (ho : t.phase.isOver = false)
    (hc : u.cancelRequested = false) (hlu : u.phase.isOver = false → l ∉ u.languages) :
    Leads (fun v => DueFrom n t c l k v ∧ HasTask j u v) (advance s j)
      (fun _ => Onward n t.languages c l k) (Onward n t.languages c l k) := by
  have called : Blind s [] [.installer] (DueFrom n t c l k) := blind_dueFrom (by simp) (by simp)
  refine leads_advance_going (P := fun v => DueFrom n t c l k v ∧ HasTask j u v)
    (C := fun v => u.phase.isOver = false ∧ DueFrom n t c l k v) (fun v hv => hv.2) hc
    (fun hp v hv => ⟨by rw [hp]; rfl, called.ask _ (by simp [Call.area]) v hv.1⟩)
    (fun _ ticket v hv => ?_)
    (fun _ hp v hv => ⟨by rw [hp]; rfl, called.ask _ (by simp [Call.area]) v hv.1⟩)
    (fun answer => Leads.assume fun hu => ?_) (fun _ _ v hv => hv.1.onward ho)
  · have task := Loop.setPhase_task v.state.loop j n (.awaiting ticket false)
    rw [if_neg hj] at task
    exact DueFrom.onward ⟨{ hv.2.1 with }, task.trans hv.2.2⟩ ho
  · refine leads_conclude (Q := DueFrom n t c l k) (T := fun _ => DueFrom n t c l k)
      (blind_dueFrom (by simp) (by simp)) (fun v hv => ⟨{ hv.1 with }, hv.2⟩) (fun b => ?_)
      fun b v hv => DueFrom.onward ?_ ho
    · refine (leads_announceAll fun l' hl' => ?_).and (leads_announceAll fun l' _ =>
        (hasTask_unheard l').withstands b)
      have other : l' ≠ l := fun e => hlu hu (e ▸ hl')
      exact (due_unheard other).withstands b
    · have task := hv.2.finish j (.finished b)
      rw [if_neg hj] at task
      exact ⟨{ hv.1 with }, task⟩

theorem leads_work_due (ho : t.phase.isOver = false) (hl : l ∈ t.languages) (j : Job) :
    Leads (fun v => DueFrom n t c l k v ∧ Sound R none v) (work s j)
      (fun _ => Onward n t.languages c l k) (Onward n t.languages c l k) := by
  have blind : Blind s [.waits, .queue] [] fun v => DueFrom n t c l k v ∧ Sound R none v :=
    (blind_dueFrom (by simp) (by simp)).and (blind_sound (by simp) (by simp) (by simp))
  refine leads_work blind (fun v hv => hv.1.onward ho) fun j _ => ?_
  refine leads_advance_of (fun v hv _ => hv.1.onward ho) fun u v ⟨⟨hdue, hsound⟩, hu⟩ => ?_
  have hc := hsound.state.uncancelled j u hu
  by_cases hj : j = n
  · subst hj
    obtain rfl := Option.some.inj (hu.symm.trans hdue.2)
    exact leads_advance_due ho hc (hsound.state.orderly j u hu).nodup hl v hdue
  · -- two tasks in flight have no language in common
    refine leads_advance_undue hj ho hc (fun hu' hlu => ?_) v ⟨hdue, hu⟩
    have own := (hsound.state.mem_languages ⟨hdue.2, ho⟩).mp hl
    have other := (hsound.state.mem_languages ⟨hu, hu'⟩).mp hlu
    exact hj (Option.some.inj (other.symm.trans own))

/-- In a step, a task in flight goes on, and a callback that is registered for a language of it is
not told about the language; or the task ends, and the callback is told about it once. -/
theorem exec_due {x : Step σ} (hx : ∀ id, x ≠ .cancel id) (h : Sound R none w)
    (ht : InFlight w.state n t) (hl : l ∈ t.languages) (hd : Due c l k w) :
    (Due c l k (exec s x w) ∧ ∃ u, InFlight (exec s x w).state n u ∧ u.languages = t.languages) ∨
      ∃ u b, HasTask n u (exec s x w) ∧ u.phase = .finished b ∧
        heard c l (exec s x w).trace = b :: k := by
  have due : DueFrom n t c l k w := ⟨hd, ht.1⟩
  have onward (v : World σ) (hv : DueFrom n t c l k v) : Onward n t.languages c l k v :=
    hv.onward ht.2
  cases x with
  | call b o =>
    refine onward _ (exec_call_of (fun _ b hv => hv.setRunning b) (perform_keeps_of_dispatch
      (blind_dueFrom (by simp) (by simp)) (fun ls cb _ => ?_) (due.setRunning b)))
    exact (due_dispatch ls cb).and (hasTask_dispatch ls cb)
  | work j =>
    have begun : DueFrom n t c l k (w.atWork j) := ⟨{ hd with }, ht.1⟩
    exact exec_work_of (fun _ b hv => hv.setRunning b) (onward w due)
      ((leads_work_due ht.2 hl j).run ⟨begun, h.congr rfl rfl⟩)
  | answer ticket =>
    have answered : Due c l k (w.onLoop fun lp => lp.answer ticket) := { hd with }
    obtain ⟨u, hu, rfl | ⟨b, hb, rfl⟩⟩ := Loop.answer_task w.state.loop ticket ht.1
    · exact .inl ⟨answered, _, ⟨hu, ht.2⟩, rfl⟩
    · exact .inl ⟨answered, _, ⟨hu, rfl⟩, rfl⟩
  | cancel id => exact absurd rfl (hx id)
  | wait language => exact onward _ ⟨{ hd with }, ht.1⟩
  | meanwhile f => exact onward _ ⟨{ hd with }, ht.1⟩

/-- As long as a task is in flight, a callback that is registered for a language of it stays
registered and is not told about the language. -/
theorem run_due (h : Sound R none w) (ht : InFlight w.state n t) (hl : l ∈ t.languages)
    (hd : Due c l k w) {more : List (Step σ)} (hc : NoCancel more)
    (hflight : ∀ m, m <+: more → ∃ u, InFlight (run s m w).state n u) :
    Due c l k (run s more w) ∧ ∃ u, InFlight (run s more w).state n u ∧ u.languages = t.languages := by
  induction more using List.reverseRecOn with
  | nil => exact ⟨hd, t, ht, rfl⟩
  | append_singleton m y ih =>
    obtain ⟨hm, hy⟩ := NoCancel.append.mp hc
    obtain ⟨due, u, hu, hlanguages⟩ := ih hm fun k hk => hflight k (hk.trans (List.prefix_append _ _))
    obtain ⟨u', hu'⟩ := hflight _ List.prefix_rfl
    rw [run_append] at hu' ⊢
    have step := exec_due (s := s) (x := y) (fun id e => hy id (by simp [e])) (h.run hm) hu
      (hlanguages ▸ hl) due
    rcases step with ⟨due', u'', hu'', hlanguages'⟩ | ⟨u'', b, hu'', hp, -⟩
    · exact ⟨due', u'', hu'', hlanguages'.trans hlanguages⟩
    · obtain rfl := Option.some.inj (hu'.1.symm.trans hu'')
      have ho := hu'.2
      rw [hp] at ho
      cases ho

/-! ## Runs -/

/-- **Requests by those who are told.** After a run in which no task is asked to stop, let a job come
to an interlude at which a listener requests a language that is not pending, with a callback that
this announcement is not still to tell about the language, and let the request be answered with a
task. Then that is a new task, which has the language and has not begun when the job is done, and:

* in the job, the callback is told about the language with the success of the old install if the
  language is still to be announced then, and not at all otherwise;
* in the other case it is not told about the language as long as the new task is in flight, and it is
  told once, with the success of the new task, in the step that ends it. -/
theorem nested_request {w₀ : World σ} (hw : Initial w₀) {steps : List (Step σ)}
    (hsteps : NoCancel steps) (hrun : run s steps w₀ = w) (hq : .task i ∈ w.state.loop.queue)
    {p : Interlude σ} (hret : Returned s i (w.atWork (.task i)) p.languages answer u)
    (hp : p.Within s answer u) (hc : p.request.callback = some c)
    (hl : l ∈ Gateway.requested p.request.languages)
    (hfree : Assoc.get? p.world.state.gateway.pending l = none)
    (hn : ((Gateway.dispatch s p.request.languages p.request.callback).run p.world).1.toOption =
      some (some n))
    (hothers : p.language = l → c ∉ p.others) :
    p.world.state.loop.tasks[n]? = none ∧ Begins n l (exec s (.work (.task i)) w) ∧
    heard c l (exec s (.work (.task i)) w).trace =
      (if l ∈ p.todo then [p.success] else []) ++ heard c l p.world.trace ∧
    (l ∉ p.todo → ∀ more : List (Step σ), NoCancel more →
      (∀ m, m <+: more → ∃ u, InFlight (run s m (exec s (.work (.task i)) w)).state n u) →
      ∀ v, run s more (exec s (.work (.task i)) w) = v →
        heard c l v.trace = heard c l p.world.trace ∧
        ∀ y u success, (∀ id, y ≠ .cancel id) → HasTask n u (exec s y v) →
          u.phase = .finished success →
          heard c l (exec s y v).trace = success :: heard c l p.world.trace) := by
  have sound : Sound (fun _ => True) none w := by
    rw [← hrun]
    exact (sound_initial (R := fun _ => True) hw).run hsteps
  have neat : Enablement.Neat w.state := hrun ▸ Enablement.run_neat hw steps
  obtain ⟨hstate, t, ht, hlanguages⟩ := hret.inFlight
  have nodup : p.languages.Nodup := hlanguages ▸ (sound.state.orderly i t ht.1).nodup
  have htodo : p.todo.Nodup := ((List.nodup_append.mp nodup).2.1.of_cons)
  -- what the interlude finds
  have task : HasTask i t p.world := by
    refine hp.keeps (blind_hasTask (by simp)) (fun l => hasTask_unheard l) ?_
    rw [HasTask, hstate]
    exact ht.1
  have neat' : Enablement.Neat p.world.state := by
    refine hp.keeps (I := fun w => Enablement.Neat w.state)
      (Enablement.blind_neat (by simp) (by simp)) (fun l => Enablement.neat_unheard l) ?_
    rw [hstate]
    exact ⟨neat.waiting, neat.heard⟩
  have asked := leads_dispatch_due (s := s) (c := c) (E := fun _ => False) hl hfree neat'.heard
    p.world rfl
  rcases hasked : (Gateway.dispatch s p.request.languages p.request.callback).run p.world
    with ⟨_ | r, d⟩
  · rw [hasked] at hn
    cases hn
  rw [hasked] at hn
  rw [← hc, hasked] at asked
  obtain rfl : r = some n := Option.some.inj hn
  obtain ⟨hlast, due, begins⟩ := asked n rfl
  have hi : i ≠ n := Nat.ne_of_lt (hlast ▸ (List.getElem?_eq_some_iff.mp task).1)
  obtain ⟨x, -, hbegins, announced⟩ := (leads_rest_due (E := fun _ => False) hp hasked begins due
    hothers htodo hi).exists_ok rfl
  -- and the world after the job
  have job : exec s (.work (.task i)) w =
      ((conclude s i p.languages answer).run u).2.setRunning w.state.loop.isRunning := by
    rw [exec_work hq]
    exact congrArg (fun r => World.setRunning (Prod.snd r) _) hret.run_advance
  have begun : Begins n l (exec s (.work (.task i)) w) := job ▸ hbegins
  have announced' : Announced p.todo p.success c l (heard c l p.world.trace)
      (exec s (.work (.task i)) w) := by
    rw [job]
    exact announced.onLoop fun l => { l with isRunning := w.state.loop.isRunning }
  unfold Announced at announced'
  refine ⟨hlast ▸ List.getElem?_eq_none (Nat.le_refl _), begun, ?_, fun htodo more hmore hflight v
    hv => ?_⟩
  · by_cases htodo : l ∈ p.todo
    · rw [if_pos htodo] at announced' ⊢
      exact announced'
    · rw [if_neg htodo] at announced' ⊢
      exact announced'.heard
  · rw [if_neg htodo] at announced'
    obtain ⟨t', ht', hp', hl'⟩ := begun
    have sound' := exec_sound (s := s) (x := .work (.task i)) (R := fun _ => True) nofun
      (fun _ _ => trivial) sound
    obtain ⟨waits, u', hu', hlanguages'⟩ :=
      run_due sound' ⟨ht', by rw [hp']; rfl⟩ hl' announced' hmore hflight
    subst hv
    refine ⟨waits.heard, fun y u'' success hy hu'' hover => ?_⟩
    rcases exec_due hy (sound'.run hmore) hu' (hlanguages' ▸ hl') waits with
      ⟨-, u₁, hu₁, -⟩ | ⟨u₁, b, hu₁, hb, htold⟩
    · obtain rfl := Option.some.inj (hu''.symm.trans hu₁.1)
      have ho := hu₁.2
      rw [hover] at ho
      cases ho
    · obtain rfl := Option.some.inj (hu''.symm.trans hu₁)
      obtain rfl := Phase.finished.inj (hover.symm.trans hb)
      exact htold

/-- Listeners of which x, when it is told about one language, requests another one for y; an
installer that fails for two languages at once. -/
def nestingListener (trigger wanted : String) : Surroundings Unit where
  reply
    | .install languages, o => (.ok (.now (.bool (languages.length = 1))), o)
    | .tell name language _, o =>
      (.ok ⟨if name = "x" ∧ language = trigger then [⟨[wanted], some (.outside "y")⟩] else [],
        none⟩, o)
    | c, o => (Surroundings.outOfReach Unit).reply c o
  machine _ := .empty

/-- Nothing was done yet, and there is an installer. -/
def installerPresent : World Unit := .fresh () { gateway := { installer := .present } }

/-- A request for two languages. -/
def bothRequested : List (Step Unit) := [.call true (.request ["a", "b"] (some (.outside "x")))]

/-- Told about the second language, x requests the first one again for y: y is told about it by the
task that this starts, and only then. -/
theorem nested_request_announced :
    let s := nestingListener "b" "a"
    let v := exec s (.work (.task 0)) (run s bothRequested installerPresent)
    heard (.outside "y") "a" v.trace = [] ∧
      heard (.outside "y") "a" (exec s (.work (.task 1)) v).trace = [true] := by
  intro s v
  let w := run s bothRequested installerPresent
  let u := afterCall s (.install ["a", "b"]) (w.atWork (.task 0))
  let judged := ((judge ["a", "b"] (.ok (.bool false))).run u).2
  let announced := ((["a"].forM (announce s false)).run
    (judged.onGateway fun g => g.unassign ["a", "b"])).2
  let told := announced.onGateway fun g => g.forget "b"
  let p : Interlude Unit :=
    { success := false, done := ["a"], language := "b", todo := [], told := [], name := "x",
      others := [], served := [], request := ⟨["a"], some (.outside "y")⟩, left := [],
      failure := none
      world := afterCall s (.tell "x" "b" false)
        { told with trace := .told (.outside "x") "b" false :: told.trace } }
  have hw : Initial installerPresent := ⟨rfl, rfl⟩
  have hc : NoCancel bothRequested := fun id => by simp [bothRequested]
  have task : HasTask 0 { languages := ["a", "b"] } (w.atWork (.task 0)) := by
    unfold HasTask
    decide +kernel
  have hret : Returned s 0 (w.atWork (.task 0)) p.languages (.ok (.bool false)) u :=
    .now task rfl rfl rfl
  have hp : p.Within s (.ok (.bool false)) u := by
    refine ⟨judged, announced, told, rfl, run_announceAll _ _ _, by decide +kernel, rfl, ?_, rfl⟩
    simp [s, nestingListener, p, Interlude.reaction]
  have before : heard (.outside "y") "a" p.world.trace = [] := by decide +kernel
  obtain ⟨-, -, told, own⟩ := nested_request hw hc (w := w) rfl (by decide +kernel) hret hp
    (c := .outside "y") (l := "a") (n := 1) rfl (by decide +kernel) (by decide +kernel)
    (by decide +kernel) fun e => absurd e (by decide)
  rw [if_neg List.not_mem_nil, before] at told
  refine ⟨told, ?_⟩
  have begun : InFlight v.state 1 { languages := ["a"] } := ⟨by decide +kernel, rfl⟩
  have flight : ∀ m, m <+: [] → ∃ u, InFlight (run s m v).state 1 u := by
    intro m hm
    rw [List.prefix_nil.mp hm, TreeFeatures.run, List.foldl_nil]
    exact ⟨_, begun⟩
  obtain ⟨-, ends⟩ := own List.not_mem_nil [] (fun id => List.not_mem_nil) flight v rfl
  have ended : HasTask 1 { languages := ["a"], phase := .finished true }
      (exec s (.work (.task 1)) v) := by
    unfold HasTask
    decide +kernel
  rw [ends (.work (.task 1)) _ true (fun id => nofun) ended rfl, before]

/-- Told about the first language, x requests the second one again for y, which starts another task:
y is told about it with the old install that failed, before the task begins, and never again. -/
theorem nested_request_early :
    let s := nestingListener "a" "b"
    let v := exec s (.work (.task 0)) (run s bothRequested installerPresent)
    v.state.loop.tasks[1]? = some { languages := ["b"] } ∧
      heard (.outside "y") "b" v.trace = [false] ∧
      (exec s (.work (.task 1)) v).state.loop.tasks[1]? =
        some { languages := ["b"], phase := .finished true } ∧
      heard (.outside "y") "b" (exec s (.work (.task 1)) v).trace = [false] := by
  decide +kernel

end TreeFeatures.Install
