import Mathlib.Data.List.Induction
import TreeFeatures.Proofs.Run
import TreeFeatures.Script.Stage

/-!
# One install at a time

No language is installed twice at once. `SingleFlight` is the invariant: the pending languages are
those of the tasks in flight, each with its own task. While a task tells everybody about its end,
its languages are no longer pending and it is not over yet; the invariant leaves it out then
(`gone`). `Sound` adds that every call of the installer was orderly.

* `SingleFlight.accept`, `SingleFlight.unassign`, `SingleFlight.finish`, `SingleFlight.relabel`: how
  the state changes.
* `exec_sound`, `run_sound`: every step keeps it, if no task is asked to stop, and so does every
  run.
* `exec_flight`: what a step means for a task in flight, and for the calls with one of its
  languages.
* `single_flight`: the result.
-/

namespace TreeFeatures.Install

open Act

/-- A task that is not over. -/
def InFlight (st : State) (id : TaskId) (t : Task) : Prop :=
  st.loop.tasks[id]? = some t ∧ t.phase.isOver = false

/-- The languages of the calls of the installer, newest first. -/
def installCalls (trace : List Event) : List (List String) :=
  trace.filterMap fun
    | .asked (.install languages) => some languages
    | _ => none

/-- The calls of the installer with a language. -/
def callsWith (l : String) (trace : List Event) : List (List String) :=
  (installCalls trace).filter fun languages => l ∈ languages

theorem callsWith_install (l : String) (languages : List String) (trace : List Event) :
    callsWith l (.asked (.install languages) :: trace) =
      if l ∈ languages then languages :: callsWith l trace else callsWith l trace := by
  unfold callsWith installCalls
  rw [List.filterMap_cons, List.filter_cons]
  simp only [decide_eq_true_eq]

/-- Languages as the installer gets them: some, each once and with a name, in the order in which
somebody requested them. -/
structure Orderly (R : List String → Prop) (languages : List String) : Prop where
  nonempty : languages ≠ []
  nodup : languages.Nodup
  named : "" ∉ languages
  inOrder : ∃ wanted, R wanted ∧ languages.Sublist (Gateway.requested wanted)

theorem Orderly.mono {R R' : List String → Prop} {languages : List String}
    (h : Orderly R languages) (hR : ∀ ls, R ls → R' ls) : Orderly R' languages := by
  obtain ⟨wanted, hw, hs⟩ := h.inOrder
  exact ⟨h.nonempty, h.nodup, h.named, wanted, hR wanted hw, hs⟩

/-- The pending languages are those of certain tasks, each with its task. -/
def Held (holds : TaskId → Task → Prop) (st : State) : Prop :=
  ∀ l id, Assoc.get? st.gateway.pending l = some id ↔
    ∃ t, st.loop.tasks[id]? = some t ∧ holds id t ∧ l ∈ t.languages

namespace Held

variable {holds holds' : TaskId → Task → Prop} {st st' : State}

/-- A task that holds its languages has those that are pending with it. -/
theorem mem_languages (h : Held holds st) {id : TaskId} {t : Task}
    (ht : st.loop.tasks[id]? = some t) (hh : holds id t) {l : String} :
    l ∈ t.languages ↔ Assoc.get? st.gateway.pending l = some id := by
  rw [h]
  constructor
  · exact fun hl => ⟨t, ht, hh, hl⟩
  · rintro ⟨u, hu, -, hl⟩
    obtain rfl := Option.some.inj (ht.symm.trans hu)
    exact hl

/-- A request gives the languages that are not pending to a new task. -/
theorem accept (h : Held holds st) {wanted : List String} (callback : Option Callback)
    (hnew : holds st.loop.tasks.length { languages := st.gateway.fresh wanted }) :
    Held holds (Gateway.accept st wanted callback) := by
  intro l id
  rw [Gateway.accept_pending]
  by_cases hl : l ∈ st.gateway.fresh wanted
  · rw [if_pos hl]
    have hf : st.gateway.fresh wanted ≠ [] := List.ne_nil_of_mem hl
    constructor
    · rintro ⟨⟩
      refine ⟨{ languages := st.gateway.fresh wanted }, ?_, hnew, hl⟩
      rw [Gateway.accept_tasks, if_neg hf, List.getElem?_concat_length]
    · rintro ⟨t, ht, hh, hlt⟩
      rcases Gateway.accept_task_cases st _ callback ht with hold | ⟨rfl, -, -⟩
      · have := (h l id).mpr ⟨t, hold, hh, hlt⟩
        rw [(Gateway.mem_fresh.mp hl).2] at this
        cases this
      · rfl
  · rw [if_neg hl, h]
    constructor
    · rintro ⟨t, ht, hh, hlt⟩
      exact ⟨t, Gateway.accept_task st _ callback ht, hh, hlt⟩
    · rintro ⟨t, ht, hh, hlt⟩
      rcases Gateway.accept_task_cases st _ callback ht with hold | ⟨-, -, rfl⟩
      · exact ⟨t, hold, hh, hlt⟩
      · exact absurd hlt hl

/-- Taking the languages of a task leaves the other tasks theirs. -/
theorem unassign (h : Held holds st) {id : TaskId} {t : Task} (ht : st.loop.tasks[id]? = some t)
    (hh : holds id t) :
    Held (fun id' u => id ≠ id' ∧ holds id' u)
      { st with gateway := st.gateway.unassign t.languages } := by
  intro l id'
  simp only [Gateway.unassign, Assoc.get?_foldl_remove]
  split
  · next hl =>
    refine ⟨by simp, ?_⟩
    rintro ⟨u, hu, ⟨hid, hhu⟩, hlu⟩
    refine absurd (Option.some.inj ?_) hid
    exact ((h.mem_languages ht hh).mp hl).symm.trans ((h.mem_languages hu hhu).mp hlu)
  · next hl =>
    rw [h]
    constructor
    · rintro ⟨u, hu, hhu, hlu⟩
      refine ⟨u, hu, ⟨?_, hhu⟩, hlu⟩
      rintro rfl
      obtain rfl := Option.some.inj (ht.symm.trans hu)
      exact hl hlu
    · rintro ⟨u, hu, ⟨-, hhu⟩, hlu⟩
      exact ⟨u, hu, hhu, hlu⟩

/-- Tasks may change in any way that keeps their languages and whether they hold them. -/
theorem retask (h : Held holds st) {lp : Loop}
    (hlength : lp.tasks.length = st.loop.tasks.length)
    (htask : ∀ (id : TaskId) (t : Task), st.loop.tasks[id]? = some t → ∃ t' : Task,
      lp.tasks[id]? = some t' ∧ t'.languages = t.languages ∧ (holds' id t' ↔ holds id t)) :
    Held holds' { st with loop := lp } := by
  intro l id
  refine (h l id).trans ?_
  constructor
  · rintro ⟨t, ht, hh, hl⟩
    obtain ⟨t', ht', hlanguages, hiff⟩ := htask id t ht
    exact ⟨t', ht', hiff.mpr hh, hlanguages ▸ hl⟩
  · rintro ⟨t', ht', hh, hl⟩
    obtain ⟨t, ht, hlanguages, hiff⟩ := Loop.task_back hlength htask ht'
    exact ⟨t, ht, hiff.mp hh, hlanguages ▸ hl⟩

end Held

/-- The pending languages are those of the tasks in flight, a task that is just ending aside. -/
structure SingleFlight (R : List String → Prop) (gone : Option TaskId) (st : State) : Prop where
  pending : ∀ l id, Assoc.get? st.gateway.pending l = some id ↔
    ∃ t, InFlight st id t ∧ gone ≠ some id ∧ l ∈ t.languages
  orderly : ∀ (id : TaskId) (t : Task), st.loop.tasks[id]? = some t → Orderly R t.languages
  uncancelled : ∀ (id : TaskId) (t : Task), st.loop.tasks[id]? = some t → t.cancelRequested = false
  gone_lt : ∀ id, gone = some id → id < st.loop.tasks.length

variable {R R' : List String → Prop} {gone : Option TaskId} {st st' : State}

/-- What single flight says about the pending languages. -/
theorem held_iff : Held (fun id t => t.phase.isOver = false ∧ gone ≠ some id) st ↔
    ∀ l id, Assoc.get? st.gateway.pending l = some id ↔
      ∃ t, InFlight st id t ∧ gone ≠ some id ∧ l ∈ t.languages := by
  simp only [Held, InFlight, and_assoc]

namespace SingleFlight

theorem held (h : SingleFlight R gone st) :
    Held (fun id t => t.phase.isOver = false ∧ gone ≠ some id) st :=
  held_iff.mpr h.pending

theorem mono (h : SingleFlight R gone st) (hR : ∀ ls, R ls → R' ls) : SingleFlight R' gone st :=
  ⟨h.pending, fun id t ht => (h.orderly id t ht).mono hR, h.uncancelled, h.gone_lt⟩

/-- Only the pending languages and the tasks matter. -/
theorem congr (h : SingleFlight R gone st) (hp : st'.gateway.pending = st.gateway.pending)
    (ht : st'.loop.tasks = st.loop.tasks) : SingleFlight R gone st' := by
  obtain ⟨h₁, h₂, h₃, h₄⟩ := h
  unfold InFlight at h₁
  rw [← ht] at h₁ h₂ h₃ h₄
  rw [← hp] at h₁
  exact ⟨h₁, h₂, h₃, h₄⟩

/-- A task in flight has the languages that are pending with it. -/
theorem mem_languages (h : SingleFlight R none st) {id : TaskId} {t : Task} (ht : InFlight st id t)
    {l : String} : l ∈ t.languages ↔ Assoc.get? st.gateway.pending l = some id :=
  h.held.mem_languages ht.1 ⟨ht.2, nofun⟩

/-- A request starts a task for the languages that are not pending. -/
theorem accept (h : SingleFlight R gone st) {languages : List String} (hR : R languages)
    (callback : Option Callback) :
    SingleFlight R gone (Gateway.accept st (Gateway.requested languages) callback) := by
  constructor
  case pending =>
    exact held_iff.mp <| h.held.accept callback
      ⟨rfl, fun hg => absurd (h.gone_lt _ hg) (Nat.lt_irrefl _)⟩
  case orderly =>
    intro id t ht
    rcases Gateway.accept_task_cases st _ callback ht with hold | ⟨-, hf, rfl⟩
    · exact h.orderly id t hold
    · refine ⟨hf, (Gateway.nodup_requested languages).filter _, fun hm => ?_, languages, hR,
        List.filter_sublist⟩
      exact (Gateway.mem_requested.mp (Gateway.mem_fresh.mp hm).1).2 rfl
  case uncancelled =>
    intro id t ht
    rcases Gateway.accept_task_cases st _ callback ht with hold | ⟨-, -, rfl⟩
    · exact h.uncancelled id t hold
    · rfl
  case gone_lt =>
    intro id hg
    exact Nat.lt_of_lt_of_le (h.gone_lt id hg) (Gateway.accept_length_le st _ callback)

/-- A task that ends takes its languages, and no others, from those that are pending. -/
theorem unassign (h : SingleFlight R none st) {id : TaskId} {t : Task} (ht : InFlight st id t) :
    SingleFlight R (some id)
      { st with gateway := st.gateway.unassign t.languages } := by
  refine ⟨held_iff.mp ?_, h.orderly, h.uncancelled, ?_⟩
  · refine fun l id' => (h.held.unassign ht.1 ⟨ht.2, nofun⟩ l id').trans ?_
    simp [and_comm]
  · rintro id' ⟨⟩
    exact (List.getElem?_eq_some_iff.mp ht.1).1

/-- Once the task is over, nothing has to be left out any more. -/
theorem finish {id : TaskId} (h : SingleFlight R (some id) st) {p : Phase} (hp : p.isOver = true) :
    SingleFlight R none { st with loop := st.loop.finish id p } := by
  refine ⟨held_iff.mp (h.held.retask (Loop.finish_length _ _ _) fun id' t ht => ?_),
    fun id' t ht => ?_, fun id' t ht => ?_, nofun⟩
  · have ht' := Loop.finish_task st.loop id id' p
    rw [ht] at ht'
    by_cases hid : id = id'
    · rw [if_pos hid] at ht'
      exact ⟨_, ht', rfl, by simp [hp, hid]⟩
    · rw [if_neg hid] at ht'
      exact ⟨t, ht', rfl, by simp [hid]⟩
  · rcases Loop.finish_cases ht with ⟨-, u, hu, rfl⟩ | ⟨-, hold⟩
    · exact h.orderly id' u hu
    · exact h.orderly id' t hold
  · rcases Loop.finish_cases ht with ⟨-, u, hu, rfl⟩ | ⟨-, hold⟩
    · exact h.uncancelled id' u hu
    · exact h.uncancelled id' t hold

/-- A change of phases that ends no task and begins none again does not matter. -/
theorem relabel (h : SingleFlight R gone st) {l : Loop}
    (hlength : l.tasks.length = st.loop.tasks.length)
    (htask : ∀ (id : TaskId) (t : Task), st.loop.tasks[id]? = some t → ∃ t' : Task,
      l.tasks[id]? = some t' ∧ t'.languages = t.languages ∧
        t'.cancelRequested = t.cancelRequested ∧ t'.phase.isOver = t.phase.isOver) :
    SingleFlight R gone { st with loop := l } := by
  have back := fun (id : TaskId) (t' : Task) (ht' : l.tasks[id]? = some t') =>
    Loop.task_back hlength htask ht'
  refine ⟨held_iff.mp (h.held.retask hlength fun id t ht => ?_), fun id t' ht' => ?_,
    fun id t' ht' => ?_, fun id hg => ?_⟩
  · obtain ⟨t', ht', hlanguages, -, hover⟩ := htask id t ht
    exact ⟨t', ht', hlanguages, by rw [hover]⟩
  · obtain ⟨t, ht, hlanguages, -, -⟩ := back id t' ht'
    exact hlanguages ▸ h.orderly id t ht
  · obtain ⟨t, ht, -, hcancel, -⟩ := back id t' ht'
    exact hcancel.trans (h.uncancelled id t ht)
  · exact hlength ▸ h.gone_lt id hg

theorem answer (h : SingleFlight R gone st) (ticket : Nat) :
    SingleFlight R gone { st with loop := st.loop.answer ticket } := by
  refine h.relabel (Loop.answer_length _ _) fun id t ht => ?_
  obtain ⟨t', ht', rfl | ⟨b, hb, rfl⟩⟩ := Loop.answer_task st.loop ticket ht
  · exact ⟨_, ht', rfl, rfl, rfl⟩
  · exact ⟨_, ht', rfl, rfl, by rw [hb]; rfl⟩

theorem setPhase (h : SingleFlight R gone st) {id : TaskId} {t : Task} (ht : InFlight st id t)
    {p : Phase} (hp : p.isOver = false) :
    SingleFlight R gone { st with loop := st.loop.setPhase id p } := by
  refine h.relabel (List.length_modify _ _ _) fun id' u hu => ?_
  rw [Loop.setPhase_task]
  split
  · next hid =>
    subst hid
    obtain rfl := Option.some.inj (ht.1.symm.trans hu)
    exact ⟨{ t with phase := p }, by rw [hu]; rfl, rfl, rfl, hp.trans ht.2.symm⟩
  · exact ⟨u, hu, rfl, rfl, rfl⟩

end SingleFlight

/-! ## Steps -/

variable {σ : Type} {s : Surroundings σ}

/-- The invariant of a world: single flight, and orderly calls of the installer. -/
structure Sound (R : List String → Prop) (gone : Option TaskId) (w : World σ) : Prop where
  state : SingleFlight R gone w.state
  calls : ∀ languages ∈ installCalls w.trace, Orderly R languages

/-- The languages that a step requests of the gateway. -/
def Asks (s : Surroundings σ) (w : World σ) : Step σ → List String → Prop
  | .call b o, languages => o.Asks s (w.setRunning b) languages
  | .work _, languages => ∃ r, Reacts s r ∧ languages = r.languages
  | _, _ => False

theorem Sound.mono {w : World σ} (h : Sound R gone w) (hR : ∀ ls, R ls → R' ls) :
    Sound R' gone w :=
  ⟨h.state.mono hR, fun ls hls => (h.calls ls hls).mono hR⟩

theorem Sound.congr {w : World σ} (h : Sound R gone w)
    (hp : st'.gateway.pending = w.state.gateway.pending)
    (ht : st'.loop.tasks = w.state.loop.tasks) : Sound R gone { w with state := st' } :=
  ⟨h.state.congr hp ht, h.calls⟩

/-- No change of the other parts and no other call matters. -/
theorem blind_sound {parts : List Part} {areas : List Area} (hpending : Part.pending ∉ parts)
    (htasks : Part.tasks ∉ parts) (hinstaller : Area.installer ∉ areas) :
    Blind s parts areas (Sound R gone) := by
  refine ⟨fun w l h => ⟨h.state, h.calls⟩, fun p hp w st hst h => ?_, fun c hc w h => ?_⟩
  · cases hst with
    | pending => exact absurd hp hpending
    | tasks => exact absurd hp htasks
    | _ => exact h.congr rfl rfl
  · refine ⟨h.state, ?_⟩
    cases c with
    | install languages => exact absurd hc hinstaller
    | _ => exact h.calls

theorem sound_dispatch {languages : List String} (hR : R languages) (callback : Option Callback) :
    Keeps (Sound R gone) (Gateway.dispatch s languages callback) :=
  Gateway.keeps_dispatch_of (blind_sound (by simp) (by simp) (by simp)) fun _ h _ =>
    ⟨h.state.accept hR callback, h.calls⟩

theorem sound_unheard (hR : ∀ r, Reacts s r → R r.languages) (l : String) :
    Unheard s l (Sound R gone) where
  blind := blind_sound (by simp) (by simp) (by simp)
  dequeue _ h := h.congr rfl rfl
  forget _ h := h.congr rfl rfl
  told _ _ _ h := ⟨h.state, h.calls⟩
  requested _ _ _ h := ⟨h.state, h.calls⟩
  dispatch r hr := sound_dispatch (hR r hr) r.callback

/-- A task that ends. -/
theorem sound_conclude (hR : ∀ r, Reacts s r → R r.languages) {id : TaskId} {t : Task}
    (answer : Except Fault Value) :
    Leads (fun w => Sound R none w ∧ InFlight w.state id t)
      (conclude s id t.languages answer) (fun _ => Sound R none) (Sound (σ := σ) R none) := by
  refine leads_conclude (Q := Sound R (some id)) (T := fun _ => Sound R (some id)) ?_ ?_ ?_ ?_
  · refine (blind_sound (by simp) (by simp) (by simp)).and ?_
    refine Blind.of_state (J := fun st => InFlight st id t) fun p hp st st' hst h => ?_
    cases hst <;> first | exact h | simp at hp
  · exact fun w h => ⟨h.1.state.unassign h.2, h.1.calls⟩
  · exact fun b => leads_announceAll fun l _ => (sound_unheard hR l).withstands b
  · exact fun b w h => ⟨h.state.finish rfl, h.calls⟩

/-- A task that advances. -/
theorem sound_advance (hR : ∀ r, Reacts s r → R r.languages) (id : TaskId) :
    Leads (Sound R none) (advance s id) (fun _ => Sound R none) (Sound (σ := σ) R none) := by
  refine leads_advance_of (fun _ h _ => h) fun t w hw => ?_
  have huncancelled := hw.1.state.uncancelled id t hw.2
  refine leads_advance (P := fun w => Sound R none w ∧ w.state.loop.tasks[id]? = some t)
    (C := fun w => Sound R none w ∧ InFlight w.state id t) (fun w h => h.2) (fun hp w h => ?_)
    (fun hp ticket w h => ?_) (fun ticket hp w h => ?_) (sound_conclude hR)
    (fun hc => by rw [huncancelled] at hc; cases hc) (fun _ _ w h => h.1) w hw
  · refine ⟨⟨h.1.state, fun languages hl => ?_⟩, h.2, by rw [hp]; rfl⟩
    rcases List.mem_cons.mp hl with rfl | hl
    · exact h.1.state.orderly id t h.2
    · exact h.1.calls languages hl
  · exact ⟨h.1.state.setPhase h.2 rfl, h.1.calls⟩
  · exact ⟨⟨h.1.state, h.1.calls⟩, h.2, by rw [hp]; rfl⟩

/-- Every step keeps the invariant, unless it asks a task to stop. -/
theorem exec_sound {x : Step σ} {w : World σ} (hx : ∀ id, x ≠ .cancel id)
    (hR : ∀ languages, Asks s w x languages → R languages) (h : Sound R none w) :
    Sound R none (exec s x w) := by
  have hr : ∀ (v : World σ) (b : Bool), Sound R none v → Sound R none (v.setRunning b) :=
    fun v b h => h.congr rfl rfl
  cases x with
  | call b o =>
    exact exec_call_of hr (perform_keeps_of_dispatch (blind_sound (by simp) (by simp) (by simp))
      (fun languages callback ho => sound_dispatch (hR languages ho) callback) (hr w b h))
  | work j =>
    have advanced : ∀ id, Leads (Sound R none) (advance s id) (fun _ => Sound R none) _ :=
      sound_advance fun r hreacts => hR _ ⟨r, hreacts, rfl⟩
    have worked := leads_work (blind_sound (by simp) (by simp) (by simp)) (fun _ h => h)
      fun id (_ : j = .task id) => advanced id
    exact exec_work_of hr h (worked.run (h.congr rfl rfl))
  | answer ticket => exact ⟨h.state.answer ticket, h.calls⟩
  | cancel id => exact absurd rfl (hx id)
  | wait language => exact h.congr rfl rfl
  | meanwhile f => exact ⟨h.state, h.calls⟩

/-! ## A task in flight -/

variable {id : TaskId} {t : Task} {l : String} {c : List (List String)}

/-- A task is as it was, and the calls with a language are those there were. -/
def Untouched (id : TaskId) (t : Task) (l : String) (c : List (List String)) (w : World σ) : Prop :=
  HasTask id t w ∧ callsWith l w.trace = c

/-- A task has the languages it had, and the only call with a language since then, if any, is its
own. -/
def Moved (id : TaskId) (t : Task) (l : String) (c : List (List String)) (w : World σ) : Prop :=
  ∃ u, w.state.loop.tasks[id]? = some u ∧ u.languages = t.languages ∧
    (t.phase ≠ .queued → u.phase ≠ .queued) ∧
    callsWith l w.trace =
      (if t.phase = .queued ∧ u.phase ≠ .queued then [t.languages] else []) ++ c

theorem Untouched.moved {w : World σ} (h : Untouched id t l c w) : Moved id t l c w := by
  refine ⟨t, h.1, rfl, fun hp => hp, ?_⟩
  rw [if_neg fun hp => hp.2 hp.1]
  exact h.2

theorem blind_untouched {parts : List Part} {areas : List Area} (htasks : Part.tasks ∉ parts)
    (hinstaller : Area.installer ∉ areas) : Blind s parts areas (Untouched id t l c) := by
  refine (blind_hasTask htasks).and ⟨fun w l h => h, fun p hp w st hst h => h, fun c hc w h => ?_⟩
  cases c with
  | install languages => exact absurd hc hinstaller
  | _ => exact h

theorem untouched_dispatch (languages : List String) (callback : Option Callback) :
    Keeps (Untouched id t l c) (Gateway.dispatch s languages callback) :=
  Gateway.keeps_dispatch_of (blind_untouched (by simp) (by simp)) fun _ h _ =>
    ⟨Gateway.accept_task _ _ _ h.1, h.2⟩

theorem untouched_unheard (l' : String) : Unheard s l' (Untouched id t l c) where
  blind := blind_untouched (by simp) (by simp)
  dequeue _ h := h
  forget _ h := h
  told _ _ _ h := h
  requested _ _ _ h := h
  dispatch r _ := untouched_dispatch r.languages r.callback

/-- A task that ends leaves other tasks as they are. -/
theorem untouched_conclude {E : World σ → Prop} (id' : TaskId) (languages : List String)
    (answer : Except Fault Value) :
    Leads (Untouched id t l c) (conclude s id' languages answer)
      (fun _ w => ∃ b,
        Untouched id (if id' = id then { t with phase := .finished b } else t) l c w) E := by
  refine leads_conclude (Q := Untouched id t l c) (T := fun _ => Untouched id t l c)
    (blind_untouched (by simp) (by simp)) (fun w h => h) (fun b => ?_)
    fun b w h => ⟨b, h.1.finish id' _, h.2⟩
  exact leads_announceAll fun l' _ => (untouched_unheard l').withstands b

/-- A step of another task. -/
theorem untouched_advance {id' : TaskId} (hid : id' ≠ id) {u : Task}
    (hu : u.phase = .queued → l ∉ u.languages) :
    Leads (fun w => Untouched id t l c w ∧ w.state.loop.tasks[id']? = some u) (advance s id')
      (fun _ => Untouched id t l c) (Untouched (σ := σ) id t l c) := by
  have finished : ∀ (w : World σ) p, Untouched id t l c w →
      Untouched id t l c (w.onLoop fun l => l.finish id' p) := fun w p h => by
    have := h.1.finish id' p
    rw [if_neg hid] at this
    exact ⟨this, h.2⟩
  refine leads_advance (C := Untouched id t l c) (fun w h => h.2) (fun hp w h => ?_)
    (fun _ ticket w h => ?_) (fun ticket _ w h => h.1) (fun answer => ?_) (fun _ w h => ?_)
    fun _ _ w h => h.1
  · exact ⟨h.1.1, ((callsWith_install l _ _).trans (if_neg (hu hp))).trans h.1.2⟩
  · exact ⟨(Loop.setPhase_task _ _ _ _).trans ((if_neg hid).trans h.1), h.2⟩
  · refine (untouched_conclude id' u.languages answer).weaken fun _ w hw => ?_
    obtain ⟨b, hw⟩ := hw
    rwa [if_neg hid] at hw
  · exact ⟨fun _ => finished w _ h.1, fun _ => finished _ _ h.1⟩

/-- A step of the task itself. -/
theorem moved_advance (hc : t.cancelRequested = false) (hl : l ∈ t.languages) :
    Leads (Untouched id t l c) (advance s id) (fun _ => Moved id t l c)
      (Moved (σ := σ) id t l c) := by
  have call : ∀ w : World σ, Untouched id t l c w → t.phase = .queued →
      Untouched id t l (t.languages :: c) (afterCall s (.install t.languages) w) := by
    intro w h _
    exact ⟨h.1, ((callsWith_install l _ _).trans (if_pos hl)).trans (congrArg _ h.2)⟩
  -- after the call of a queued task, or the collection of an awaited one
  refine leads_advance (C := Untouched id t l (if t.phase = .queued then t.languages :: c else c))
    (fun w h => h.1) (fun hp w h => ?_) (fun hp ticket w h => ?_) (fun ticket hp w h => ?_)
    (fun answer => ?_) (fun hcancel => by rw [hc] at hcancel; cases hcancel) fun _ _ w h => h.moved
  · rw [if_pos hp]
    exact call w h hp
  · rw [if_pos hp] at h
    refine ⟨{ t with phase := .awaiting ticket false }, ?_, rfl, fun hne => absurd hp hne, ?_⟩
    · refine (Loop.setPhase_task _ _ _ _).trans ((if_pos rfl).trans ?_)
      rw [h.1]
      rfl
    · rw [if_pos ⟨hp, nofun⟩]
      exact h.2
  · rw [if_neg (by simp [hp])]
    exact h
  · refine (untouched_conclude id t.languages answer).weaken fun _ w hw => ?_
    obtain ⟨b, hw⟩ := hw
    rw [if_pos rfl] at hw
    refine ⟨_, hw.1, rfl, fun _ => nofun, hw.2.trans ?_⟩
    by_cases hp : t.phase = .queued
    · rw [if_pos hp, if_pos ⟨hp, nofun⟩]
      rfl
    · rw [if_neg hp, if_neg fun h => hp h.1]
      rfl

/-- What a step means for a task in flight: it keeps its languages, and a call with one of them is
its own. -/
theorem exec_flight {x : Step σ} {w : World σ} (hx : ∀ id, x ≠ .cancel id) (h : Sound R none w)
    (ht : InFlight w.state id t) (hl : l ∈ t.languages) :
    Moved id t l (callsWith l w.trace) (exec s x w) := by
  have start : Untouched id t l (callsWith l w.trace) w := ⟨ht.1, rfl⟩
  have hr : ∀ (v : World σ) (b : Bool), Untouched id t l (callsWith l w.trace) v →
      Untouched id t l (callsWith l w.trace) (v.setRunning b) := fun _ _ h => h
  cases x with
  | call b o =>
    exact Untouched.moved (exec_call_of hr (perform_keeps_of_dispatch
      (blind_untouched (by simp) (by simp)) (fun ls cb _ => untouched_dispatch ls cb) start))
  | work j =>
    have blind : Blind s [.waits, .queue] []
        fun v => Untouched id t l (callsWith l w.trace) v ∧ Sound R none v :=
      (blind_untouched (by simp) (by simp)).and (blind_sound (by simp) (by simp) (by simp))
    have worked : Leads (fun v => Untouched id t l (callsWith l w.trace) v ∧ Sound R none v)
        (work s j) (fun _ => Moved id t l (callsWith l w.trace))
        (Moved id t l (callsWith l w.trace)) := by
      refine leads_work blind (fun _ h => h.1.moved) fun id' _ => ?_
      by_cases hid : id' = id
      · subst hid
        exact (moved_advance (h.state.uncancelled id' t ht.1) hl).mono (fun _ h => h.1)
          (fun _ _ h => h) fun _ h => h
      refine leads_advance_of (fun _ h _ => h.1.moved) fun u v hv => ?_
      -- another task in flight has no language in common with this one
      have hlu : u.phase = .queued → l ∉ u.languages := by
        intro hp hlu
        have h₁ := (hv.1.2.state.mem_languages ⟨hv.1.1.1, ht.2⟩).mp hl
        have h₂ := (hv.1.2.state.mem_languages ⟨hv.2, by rw [hp]; rfl⟩).mp hlu
        exact hid (Option.some.inj (h₂.symm.trans h₁))
      exact ((untouched_advance hid hlu).mono (fun _ h => h) (fun _ _ h => h.moved)
        fun _ h => h.moved) v ⟨hv.1.1, hv.2⟩
    exact exec_work_of (fun _ _ h => h) start.moved (worked.run ⟨start, h.congr rfl rfl⟩)
  | answer ticket =>
    obtain ⟨u, hu, rfl | ⟨b, hb, rfl⟩⟩ := Loop.answer_task w.state.loop ticket ht.1
    · exact Untouched.moved ⟨hu, rfl⟩
    · refine ⟨_, hu, rfl, fun _ => nofun, ?_⟩
      rw [if_neg fun hp => by rw [hp.1] at hb; cases hb]
      rfl
  | cancel id => exact absurd rfl (hx id)
  | wait language => exact Untouched.moved start
  | meanwhile f => exact Untouched.moved start

/-! ## Runs -/

/-- Languages that were requested of the gateway at some step of a run. -/
def Asked (s : Surroundings σ) (steps : List (Step σ)) (w : World σ) (languages : List String) :
    Prop :=
  ∃ before x, before ++ [x] <+: steps ∧ Asks s (TreeFeatures.run s before w) x languages

theorem sound_initial {w : World σ} (h : Initial w) : Sound R none w := by
  have hp : w.state.gateway.pending = [] := by rw [h.state]
  have ht : w.state.loop.tasks = [] := by rw [h.state]
  refine ⟨⟨fun l id => ?_, fun id t h => ?_, fun id t h => ?_, nofun⟩, ?_⟩
  · rw [hp]
    refine ⟨nofun, ?_⟩
    rintro ⟨t, ⟨h, -⟩, -⟩
    rw [ht] at h
    cases h
  · rw [ht] at h
    cases h
  · rw [ht] at h
    cases h
  · rw [h.trace]
    nofun

theorem run_sound {steps : List (Step σ)} {w : World σ} (hw : Initial w) (hc : NoCancel steps) :
    Sound (Asked s steps w) none (TreeFeatures.run s steps w) := by
  induction steps using List.reverseRecOn with
  | nil => exact sound_initial hw
  | append_singleton steps x ih =>
    obtain ⟨hsteps, hx⟩ := NoCancel.append.mp hc
    rw [run_append]
    refine exec_sound (fun id e => hx id (by simp [e]))
      (fun ls hls => ⟨steps, x, List.prefix_rfl, hls⟩) ?_
    refine (ih hsteps).mono ?_
    rintro ls ⟨before, y, hy, hls⟩
    exact ⟨before, y, hy.trans (List.prefix_append _ _), hls⟩

/-- The invariant goes on to hold, for no matter which requests. -/
theorem Sound.run {steps : List (Step σ)} {w : World σ} (h : Sound R none w)
    (hc : NoCancel steps) : Sound (fun _ => True) none (TreeFeatures.run s steps w) :=
  run_induction (fun _ hy _ hv => exec_sound (fun id e => hc id (e ▸ hy)) (fun _ _ => trivial) hv)
    (h.mono fun _ _ => trivial)

theorem Moved.trans {u : Task} {w v : World σ} (h : Moved id t l c w)
    (hu : w.state.loop.tasks[id]? = some u) (h' : Moved id u l (callsWith l w.trace) v) :
    Moved id t l c v := by
  obtain ⟨u', hu', hlanguages, hphase, hcalls⟩ := h
  obtain rfl := Option.some.inj (hu.symm.trans hu')
  obtain ⟨v', hv', hlanguages', hphase', hcalls'⟩ := h'
  refine ⟨v', hv', hlanguages'.trans hlanguages, fun hp => hphase' (hphase hp), ?_⟩
  rw [hcalls', hcalls, hlanguages]
  by_cases ht : t.phase = .queued
  · by_cases hq : u.phase = .queued
    · simp [ht, hq]
    · simp [ht, hq, hphase' hq]
  · simp [ht, hphase ht]

/-- While a task is in flight, and in the step that ends it, the only call with one of its
languages is its own. -/
theorem run_flight {w : World σ} (h : Sound R none w) (ht : InFlight w.state id t)
    (hl : l ∈ t.languages) (more : List (Step σ)) (x : Step σ) (hc : NoCancel (more ++ [x]))
    (hflight : ∀ m, m <+: more → ∃ u, InFlight (TreeFeatures.run s m w).state id u) :
    Moved id t l (callsWith l w.trace) (TreeFeatures.run s (more ++ [x]) w) := by
  have step : ∀ (m : List (Step σ)) y, NoCancel (m ++ [y]) →
      (∃ u, InFlight (TreeFeatures.run s m w).state id u) →
      Moved id t l (callsWith l w.trace) (TreeFeatures.run s m w) →
      Moved id t l (callsWith l w.trace) (TreeFeatures.run s (m ++ [y]) w) := by
    rintro m y hm ⟨u, hu⟩ hmoved
    obtain ⟨hm, hy⟩ := NoCancel.append.mp hm
    rw [run_append]
    refine hmoved.trans hu.1 (exec_flight (fun id e => hy id (by simp [e])) (h.run hm) hu ?_)
    obtain ⟨u', hu', hlanguages, -⟩ := hmoved
    obtain rfl := Option.some.inj (hu.1.symm.trans hu')
    exact hlanguages ▸ hl
  induction more using List.reverseRecOn generalizing x with
  | nil => exact step [] x hc (hflight [] List.prefix_rfl) (Untouched.moved ⟨ht.1, rfl⟩)
  | append_singleton m y ih =>
    refine step (m ++ [y]) x hc (hflight _ List.prefix_rfl) (ih y ?_ fun k hk => ?_)
    · exact (NoCancel.append.mp hc).1
    · exact hflight k (hk.trans (List.prefix_append _ _))

/-- **Single flight.** After any run in which no task is asked to stop, with `w` the world it ends
in:

* tasks in flight have no language in common;
* the pending languages are exactly theirs, each with its own task;
* every call of the installer was orderly: some languages, each once and with a name, in the order
  of a request that was made at some step of the run;
* from there on, as long as a task is in flight and in the step that ends it, the installer is
  called with one of its languages at most once, by the task itself. -/
theorem single_flight {w₀ : World σ} (hw : Initial w₀) {steps : List (Step σ)}
    (hc : NoCancel steps) {w : World σ} (hrun : TreeFeatures.run s steps w₀ = w) :
    (∀ i t j u, InFlight w.state i t → InFlight w.state j u → i ≠ j →
      t.languages.Disjoint u.languages) ∧
    (∀ l id, Assoc.get? w.state.gateway.pending l = some id ↔
      ∃ t, InFlight w.state id t ∧ l ∈ t.languages) ∧
    (∀ languages ∈ installCalls w.trace, Orderly (Asked s steps w₀) languages) ∧
    (∀ id t l, InFlight w.state id t → l ∈ t.languages →
      ∀ (more : List (Step σ)) (x : Step σ), NoCancel (more ++ [x]) →
        (∀ m, m <+: more → ∃ u, InFlight (TreeFeatures.run s m w).state id u) →
        Moved id t l (callsWith l w.trace) (TreeFeatures.run s (more ++ [x]) w)) := by
  have sound : Sound (Asked s steps w₀) none w := hrun ▸ run_sound hw hc
  refine ⟨?_, fun l id => ⟨?_, ?_⟩, sound.calls, ?_⟩
  · intro i t j u ht hu hij l hlt hlu
    have h₁ := (sound.state.pending l i).mpr ⟨t, ht, nofun, hlt⟩
    have h₂ := (sound.state.pending l j).mpr ⟨u, hu, nofun, hlu⟩
    exact hij (Option.some.inj (h₁.symm.trans h₂))
  · intro h
    obtain ⟨t, ht, -, hl⟩ := (sound.state.pending l id).mp h
    exact ⟨t, ht, hl⟩
  · rintro ⟨t, ht, hl⟩
    exact (sound.state.pending l id).mpr ⟨t, ht, nofun, hl⟩
  · exact fun id t l ht hl more x hm hflight => run_flight sound ht hl more x hm hflight

/-- An editor next to an installer that leaves its calls open, and nothing done yet. -/
def openWorld : World Script.Stage :=
  .fresh { machine := .empty, installer := { outcomes := [.open] } }
    { gateway := { installer := .present } }

/-- Two requests that overlap: the second one leaves python to the first task, and the call of that
task is the only one with python. -/
theorem single_flight_overlapping :
    let s := Script.Stage.surroundings
    let steps : List (Step Script.Stage) :=
      [.call true (.request ["lua", "", "lua", "python"] none),
        .call true (.request ["python", "go"] none)]
    let w := TreeFeatures.run s steps openWorld
    Assoc.get? w.state.gateway.pending "python" = some 0 ∧
      Assoc.get? w.state.gateway.pending "go" = some 1 ∧
      Moved 0 { languages := ["lua", "python"] } "python" []
        (TreeFeatures.run s ([.work (.task 1)] ++ [.work (.task 0)]) w) := by
  intro s steps w
  have hw : Initial openWorld := ⟨rfl, rfl⟩
  have hc : NoCancel steps := fun id => by simp [steps]
  obtain ⟨-, -, -, flight⟩ := single_flight (s := s) hw hc (w := w) rfl
  refine ⟨by decide, by decide, flight 0 _ "python" ⟨rfl, rfl⟩ (by decide) [.work (.task 1)] _
    (fun id => by simp) fun m hm => ?_⟩
  refine ⟨{ languages := ["lua", "python"] }, ?_⟩
  rcases List.prefix_cons_iff.mp hm with rfl | ⟨k, rfl, hk⟩
  · exact ⟨by decide, rfl⟩
  · obtain rfl := List.prefix_nil.mp hk
    exact ⟨by decide, rfl⟩

end TreeFeatures.Install
