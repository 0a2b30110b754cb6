import TreeFeatures.Proofs.Install.SingleFlight

/-!
# Who is told about the end of an install

A `Ledger` is what callbacks are to a language: who is to be told about the end of its install, and
the calls that were made. It changes by entries of three kinds: somebody asks, the install ends, or
neither. `entry` reads the entry of a step off the answer to a request and off the tasks, and not
off the table of callbacks.

* `Ledger.ask`, `Ledger.close`: what asking and the end of an install mean. Who asks twice is to be
  told once; at the end everybody is told, in the order of asking, and nobody is left.
* `leads_announce_ledger`, `leads_announceAll_ledger`: telling everybody closes the ledger, whether
  or not somebody fails.
* `exec_request_ledger`, `exec_outcome`: what each step means for the ledger and the install.
* `callbacks_delivered`: the result. The ledger is what the entries of the run make of it, and who
  asks is told exactly once, by the install that is in flight right after.

A ledger goes by the turns of listeners in the trace. That a turn of a listener outside is a call of
it, one for one, is shown in `Install.Calls`.
-/

namespace TreeFeatures.Install

open Act

/-- The calls of callbacks about a language, newest first. -/
def tellings (l : String) (trace : List Event) : List (Callback × Bool) :=
  trace.filterMap fun
    | .told c l' b => if l' = l then some (c, b) else none
    | _ => none

/-- What callbacks are to a language. -/
structure Ledger where
  /-- Who is to be told about the end of the install, if the table mentions the language. -/
  due : Option (List Callback)
  /-- Who was told, and what, newest first. -/
  told : List (Callback × Bool)

namespace Ledger

/-- Who is to be told. -/
def listeners (d : Ledger) : List Callback := d.due.getD []

/-- Somebody asks to be told, once. -/
def ask (d : Ledger) (c : Callback) : Ledger :=
  { d with due := some (if c ∈ d.listeners then d.listeners else d.listeners ++ [c]) }

/-- The install ends: everybody is told, in the order of asking, and nobody is left. -/
def close (d : Ledger) (success : Bool) : Ledger :=
  ⟨none, (d.listeners.map fun c => (c, success)).reverse ++ d.told⟩

theorem listeners_ask (d : Ledger) (c : Callback) :
    (d.ask c).listeners = if c ∈ d.listeners then d.listeners else d.listeners ++ [c] := rfl

theorem mem_listeners_ask (d : Ledger) (c : Callback) : c ∈ (d.ask c).listeners := by
  rw [listeners_ask]
  split
  · assumption
  · exact List.mem_append_right _ (List.mem_singleton_self c)

theorem listeners_subset_ask (d : Ledger) (c : Callback) : d.listeners ⊆ (d.ask c).listeners := by
  intro x hx
  rw [listeners_ask]
  split
  · exact hx
  · exact List.mem_append_left _ hx

/-- Asking twice is asking once. -/
theorem ask_ask (d : Ledger) (c : Callback) : (d.ask c).ask c = d.ask c := by
  have hc := mem_listeners_ask d c
  rw [ask, if_pos hc]
  rfl

theorem nodup_ask {d : Ledger} (h : d.listeners.Nodup) (c : Callback) :
    (d.ask c).listeners.Nodup := by
  rw [listeners_ask]
  exact nodup_append_new h c

end Ledger

/-- What a step means for the callbacks of a language. -/
inductive Entry where
  | nothing
  | asks (c : Callback)
  | ends (success : Bool)

/-- Make an entry. -/
def Ledger.enter (d : Ledger) : Entry → Ledger
  | .nothing => d
  | .asks c => d.ask c
  | .ends success => d.close success

theorem Ledger.nodup_enter {d : Ledger} (h : d.listeners.Nodup) (e : Entry) :
    (d.enter e).listeners.Nodup := by
  cases e with
  | nothing => exact h
  | asks c => exact nodup_ask h c
  | ends success => exact List.nodup_nil

/-- With which success a task is over. -/
def outcome : Phase → Option Bool
  | .finished success => some success
  | _ => none

variable {σ : Type}

/-- The ledger of a language in a world. -/
def ledger (l : String) (w : World σ) : Ledger :=
  ⟨Assoc.get? w.state.gateway.callbacks l, tellings l w.trace⟩

/-- With which success the task that installs a language in the first world is over in the
second. -/
def ended (l : String) (w v : World σ) : Option Bool :=
  (Assoc.get? w.state.gateway.pending l).bind fun id =>
    (v.state.loop.tasks[id]?).bind fun t => outcome t.phase

/-- The entry of a step: who asks is named by a request that is answered with a task, and an install
ends with its task. -/
def entry (s : Surroundings σ) (l : String) (y : Step σ) (w : World σ) : Entry :=
  match y with
  | .call b (.request languages (some c)) =>
    match ((Gateway.dispatch s languages (some c)).run (w.setRunning b)).1 with
    | .ok (some _) => if l ∈ Gateway.requested languages then .asks c else .nothing
    | _ => .nothing
  | .call _ _ => .nothing
  | y =>
    match ended l w (exec s y w) with
    | some success => .ends success
    | none => .nothing

/-- What the entries of a run make of a ledger. -/
def account (s : Surroundings σ) (l : String) : List (Step σ) → World σ → Ledger → Ledger
  | [], _, d => d
  | y :: steps, w, d => account s l steps (exec s y w) (d.enter (entry s l y w))

/-- A step of the gateway: a request for installs, or anything that happens to the loop; no task is
asked to stop. -/
def OfGateway : Step σ → Prop
  | .call _ (.request _ _) => True
  | .call _ _ | .cancel _ => False
  | .work _ | .answer _ | .wait _ | .meanwhile _ => True

variable {s : Surroundings σ} {l : String} {w v : World σ} {d : Ledger} {E : World σ → Prop}

theorem OfGateway.ne_cancel {y : Step σ} (hy : OfGateway y) (id : TaskId) : y ≠ .cancel id := by
  rintro rfl
  exact hy

/-! ## How the ledger changes -/

theorem blind_ledger {parts : List Part} {areas : List Area} (h : Part.callbacks ∉ parts) :
    Blind s parts areas fun v => ledger l v = d := by
  refine ⟨fun _ _ hv => hv, fun p hp w st hst hv => ?_, fun _ _ _ hv => hv⟩
  cases hst with
  | callbacks => exact absurd hp h
  | _ => exact hv

/-- The ledger after a request for several languages. -/
theorem listenAll_ledger (g : Gateway) (c : Callback) (ls : List String) (told : List (Callback × Bool)) :
    Ledger.mk (Assoc.get? (g.listenAll (some c) ls).callbacks l) told =
      if l ∈ ls then (Ledger.mk (Assoc.get? g.callbacks l) told).ask c
      else ⟨Assoc.get? g.callbacks l, told⟩ := by
  induction ls generalizing g with
  | nil => rfl
  | cons l' rest ih =>
    show Ledger.mk (Assoc.get? ((g.listen c l').listenAll (some c) rest).callbacks l) told = _
    rw [ih]
    by_cases e : l' = l
    · subst e
      have asked : Ledger.mk (Assoc.get? (g.listen c l').callbacks l') told =
          (Ledger.mk (Assoc.get? g.callbacks l') told).ask c := by
        unfold Gateway.listen
        simp only [Assoc.get?_put_self]
        rfl
      rw [asked, Ledger.ask_ask, ite_self, if_pos List.mem_cons_self]
    · have other : Assoc.get? (g.listen c l').callbacks l = Assoc.get? g.callbacks l := by
        unfold Gateway.listen
        exact Assoc.get?_put_of_ne _ _ e
      have hmem : l ∈ l' :: rest ↔ l ∈ rest := by simp [Ne.symm e]
      simp only [other, hmem]

/-- The ledger after a request that is accepted. -/
theorem ledger_accept (w : World σ) (wanted : List String) (callback : Option Callback) :
    ledger l { w with state := Gateway.accept w.state wanted callback } =
      match callback with
      | some c => if l ∈ wanted then (ledger l w).ask c else ledger l w
      | none => ledger l w := by
  unfold ledger
  rw [Gateway.accept_eq]
  cases callback with
  | none => rfl
  | some c => exact listenAll_ledger w.state.gateway c wanted _

theorem tellings_told (c : Callback) (l' : String) (b : Bool) (trace : List Event) :
    tellings l (.told c l' b :: trace) =
      if l' = l then (c, b) :: tellings l trace else tellings l trace := by
  unfold tellings
  rw [List.filterMap_cons]
  split <;> split <;> simp_all

/-! ## The end of an install -/

/-- While the others are told, those who were told before are in the ledger. -/
theorem keeps_respond_ledger (hs : ∀ r, ¬ Reacts s r) (l' : String) (success : Bool)
    (c : Callback) : Keeps (fun v => ledger l v = d) (respond s l' success c) :=
  keeps_respond (blind_ledger (by simp)) (fun _ hv => hv) (fun _ _ _ hv => hv)
    (fun r hr => absurd hr (hs r)) success c

/-- Telling a listener makes one more call, whether or not the listener fails. -/
theorem leads_tell_ledger (hs : ∀ r, ¬ Reacts s r) (l' : String) (success : Bool) (c : Callback) :
    Leads (fun v => ledger l v = d) (tell s l' success c)
      (fun _ v => ledger l v = if l' = l then { d with told := (c, success) :: d.told } else d) E := by
  refine (leads_emit (Q := fun v => ledger l v =
    if l' = l then { d with told := (c, success) :: d.told } else d) fun v hv => ?_).bind fun _ => ?_
  · show Ledger.mk _ (tellings l (.told c l' success :: v.trace)) = _
    rw [tellings_told, ← hv]
    split <;> rfl
  · exact (keeps_respond_ledger hs l' success c).leads.shielded fun _ _ hv => hv

/-- Telling everybody closes the ledger of the language, and leaves the others alone. -/
theorem leads_announce_ledger (hs : ∀ r, ¬ Reacts s r) (l' : String) (success : Bool) :
    Leads (fun v => ledger l v = d) (announce s success l')
      (fun _ v => ledger l v = if l' = l then d.close success else d) E := by
  by_cases e : l' = l
  · subst e
    rw [if_pos rfl]
    -- the calls that are still to be made are made up already
    let Rest (rest : List Callback) (v : World σ) : Prop :=
      ∃ d', ledger l' v = d' ∧ d'.due = none ∧
        (rest.map fun c => (c, success)).reverse ++ d'.told = (d.close success).told
    have loop : Leads (Rest d.listeners) (d.listeners.forM (tell s l' success)) (fun _ => Rest []) E := by
      refine Leads.forM (J := Rest) fun c rest v hv => ?_
      obtain ⟨d', hd', hdue, htold⟩ := hv
      refine (leads_tell_ledger hs l' success c).weaken (fun _ u hu => ⟨_, hu, ?_, ?_⟩) v hd'
      · rw [if_pos rfl]
        exact hdue
      · rw [if_pos rfl, ← htold, List.map_cons, List.reverse_cons, List.append_assoc]
        rfl
    refine Leads.bind (Q := fun st v => st.gateway.listeners l' = d.listeners ∧ ledger l' v = d)
      (leads_state fun v hv => ⟨?_, hv⟩) fun st => Leads.assume fun hst => ?_
    · rw [← hv]
      rfl
    rw [hst]
    refine (leads_update (Q := Rest d.listeners) fun v hv => ⟨_, rfl, ?_, ?_⟩).bind fun _ =>
      loop.weaken fun _ v hv => ?_
    · exact Assoc.get?_remove_self _ _
    · rw [← hv]
      rfl
    · obtain ⟨d', hd', hdue, htold⟩ := hv
      rw [hd', Ledger.close, ← hdue]
      exact congrArg (Ledger.mk d'.due) htold
  · rw [if_neg e]
    refine leads_state_any.bind fun st =>
      (leads_update (Q := fun v => ledger l v = d) fun v hv => ?_).bind fun _ => ?_
    · rw [← hv]
      unfold ledger Gateway.forget
      exact congrArg (Ledger.mk · _) (Assoc.get?_remove_of_ne _ e)
    · refine Leads.forM (J := fun _ v => ledger l v = d) fun c _ => ?_
      have told := leads_tell_ledger (E := E) (d := d) (l := l) hs l' success c
      rwa [if_neg e] at told

/-- Telling everybody about the end of the installs of several languages. -/
theorem leads_announceAll_ledger (hs : ∀ r, ¬ Reacts s r) {languages : List String}
    (hn : languages.Nodup) (success : Bool) :
    Leads (fun v => ledger l v = d) (languages.forM (announce s success))
      (fun _ v => ledger l v = if l ∈ languages then d.close success else d) E := by
  induction languages generalizing d with
  | nil => exact leads_pure fun _ hv => hv
  | cons l' rest ih =>
    obtain ⟨hl', hrest⟩ := List.nodup_cons.mp hn
    refine (leads_announce_ledger hs l' success).bind fun _ => ?_
    by_cases e : l' = l
    · subst e
      rw [if_pos rfl, if_pos List.mem_cons_self]
      have told := ih (d := d.close success) hrest
      rwa [if_neg hl'] at told
    · have hmem : l ∈ l' :: rest ↔ l ∈ rest := by simp [Ne.symm e]
      rw [if_neg e]
      simp only [hmem]
      exact ih hrest

/-! ## Steps -/

/-- The task of a language goes on, if there is one. -/
structure Kept (l : String) (w v : World σ) : Prop where
  pending : Assoc.get? v.state.gateway.pending l = Assoc.get? w.state.gateway.pending l
  inFlight : ∀ id, Assoc.get? w.state.gateway.pending l = some id → ∃ u, InFlight v.state id u

/-- The install of a language goes on, if there is one, and nobody was told about it. -/
def GoesOn (l : String) (w v : World σ) : Prop := ledger l v = ledger l w ∧ Kept l w v

/-- The install of a language is over, and everybody was told about it. -/
structure Over (l : String) (success : Bool) (w v : World σ) : Prop where
  ledger : ledger l v = (ledger l w).close success
  pending : Assoc.get? v.state.gateway.pending l = none
  task : ∃ id u, Assoc.get? w.state.gateway.pending l = some id ∧ HasTask id u v ∧
    u.phase = .finished success

theorem GoesOn.ended (h : GoesOn l w v) : ended l w v = none := by
  unfold Install.ended
  cases hid : Assoc.get? w.state.gateway.pending l with
  | none => rfl
  | some id =>
    obtain ⟨u, hu, ho⟩ := h.2.inFlight id hid
    rw [Option.bind_some, hu, Option.bind_some]
    cases hp : u.phase with
    | finished b =>
      rw [hp] at ho
      cases ho
    | _ => rfl

theorem Over.ended {success : Bool} (h : Over l success w v) : ended l w v = some success := by
  obtain ⟨id, u, hid, hu, hp⟩ := h.task
  unfold Install.ended
  rw [hid, Option.bind_some, hu, Option.bind_some, hp]
  rfl

theorem blind_kept {parts : List Part} {areas : List Area} (hpending : Part.pending ∉ parts)
    (htasks : Part.tasks ∉ parts) : Blind s parts areas (Kept l w) := by
  refine ⟨fun _ _ hv => ⟨hv.pending, hv.inFlight⟩, fun p hp v st hst hv => ?_,
    fun _ _ _ hv => ⟨hv.pending, hv.inFlight⟩⟩
  cases hst with
  | pending => exact absurd hp hpending
  | tasks => exact absurd hp htasks
  | _ => exact ⟨hv.pending, hv.inFlight⟩

theorem kept_unheard (hs : ∀ r, ¬ Reacts s r) (l' : String) : Unheard s l' (Kept l w) where
  blind := blind_kept (by simp) (by simp)
  dequeue _ hv := ⟨hv.pending, hv.inFlight⟩
  forget _ hv := ⟨hv.pending, hv.inFlight⟩
  told _ _ _ hv := ⟨hv.pending, hv.inFlight⟩
  requested _ _ _ hv := ⟨hv.pending, hv.inFlight⟩
  dispatch r hr := absurd hr (hs r)

theorem blind_goesOn {parts : List Part} {areas : List Area} (hcallbacks : Part.callbacks ∉ parts)
    (hpending : Part.pending ∉ parts) (htasks : Part.tasks ∉ parts) :
    Blind s parts areas (GoesOn l w) :=
  (blind_ledger hcallbacks).and (blind_kept hpending htasks)

theorem GoesOn.refl {R : List String → Prop} (h : Sound R none w) : GoesOn l w w := by
  refine ⟨rfl, rfl, fun id hid => ?_⟩
  obtain ⟨t, ht, -, -⟩ := (h.state.pending l id).mp hid
  exact ⟨t, ht⟩

/-- The install goes on if its task stays in flight. -/
theorem GoesOn.onLoop (h : GoesOn l w v) {f : Loop → Loop}
    (htask : ∀ id u, Assoc.get? w.state.gateway.pending l = some id → InFlight v.state id u →
      ∃ u', InFlight (v.onLoop f).state id u') : GoesOn l w (v.onLoop f) := by
  refine ⟨h.1, h.2.pending, fun id hid => ?_⟩
  obtain ⟨u, hu⟩ := h.2.inFlight id hid
  exact htask id u hid hu

/-- At the end of its install everybody who asked about a language is told. -/
theorem leads_conclude_over (hs : ∀ r, ¬ Reacts s r) {i : TaskId} {t : Task}
    (hl : l ∈ t.languages) (hn : t.languages.Nodup)
    (hi : Assoc.get? w.state.gateway.pending l = some i) (answer : Except Fault Value) :
    Leads (fun v => GoesOn l w v ∧ HasTask i t v) (conclude s i t.languages answer)
      (fun _ v => ∃ b, Over l b w v) E := by
  let Freed (v : World σ) : Prop := Assoc.get? v.state.gateway.pending l = none ∧ HasTask i t v
  have freed : ∀ l', Unheard s l' Freed := by
    intro l'
    have blind : Blind s [.settings, .registry, .features] [.features, .options, .editor, .listener]
        Freed := by
      refine Blind.of_state (J := fun st => Assoc.get? st.gateway.pending l = none ∧
        st.loop.tasks[i]? = some t) fun p hp st st' hst hv => ?_
      cases hst <;> first | exact hv | simp at hp
    exact ⟨blind, fun _ hv => hv, fun _ hv => hv, fun _ _ _ hv => hv, fun _ _ _ hv => hv,
      fun r hr => absurd hr (hs r)⟩
  refine leads_conclude (Q := fun v => ledger l v = ledger l w ∧ Freed v)
    (T := fun b v => ledger l v = (ledger l w).close b ∧ Freed v) ?_ (fun v hv => ?_) (fun b => ?_)
    fun b v hv => ?_
  · exact (blind_goesOn (by simp) (by simp) (by simp)).and (blind_hasTask (by simp))
  · refine ⟨hv.1.1, ?_, hv.2⟩
    simp only [Gateway.unassign, Assoc.get?_foldl_remove, if_pos hl]
  · have told := leads_announceAll_ledger (E := E) (d := ledger l w) (l := l) hs hn b
    rw [if_pos hl] at told
    exact told.and (leads_announceAll fun l' _ => (freed l').withstands b)
  · have finished := hv.2.2.finish i (.finished b)
    rw [if_pos rfl] at finished
    exact ⟨b, hv.1, hv.2.1, i, _, hi, finished, rfl⟩

/-- The end of another install does not matter. -/
theorem leads_conclude_goesOn (hs : ∀ r, ¬ Reacts s r) {i : TaskId} {languages : List String}
    (hl : l ∉ languages) (hn : languages.Nodup)
    (hi : Assoc.get? w.state.gateway.pending l ≠ some i) (answer : Except Fault Value) :
    Leads (GoesOn l w) (conclude s i languages answer) (fun _ => GoesOn l w) E := by
  refine leads_conclude (Q := GoesOn l w) (T := fun _ => GoesOn l w)
    (blind_goesOn (by simp) (by simp) (by simp)) (fun v hv => ⟨hv.1, ?_, hv.2.inFlight⟩)
    (fun b => ?_) fun b v hv => hv.onLoop fun id u hid hu => ⟨u, ?_, hu.2⟩
  · simp only [Gateway.unassign, Assoc.get?_foldl_remove, if_neg hl]
    exact hv.2.pending
  · have told := leads_announceAll_ledger (E := E) (d := ledger l w) (l := l) hs hn b
    rw [if_neg hl] at told
    exact told.and (leads_announceAll fun l' _ => (kept_unheard hs l').withstands b)
  · have ne : i ≠ id := fun e => hi (e ▸ hid)
    exact (Loop.finish_task _ _ _ _).trans ((if_neg ne).trans hu.1)

/-- What a step of a task means for the callbacks of a language: its install goes on, or is over. -/
theorem leads_advance_ledger {R : List String → Prop} (hs : ∀ r, ¬ Reacts s r) (i : TaskId) :
    Leads (fun v => GoesOn l w v ∧ Sound R none v) (advance s i)
      (fun _ v => GoesOn l w v ∨ ∃ b, Over l b w v) E := by
  refine leads_advance_of (fun _ h _ => .inl h.1) fun t v₀ hv₀ => ?_
  have uncancelled := hv₀.1.2.state.uncancelled i t hv₀.2
  have nodup := (hv₀.1.2.state.orderly i t hv₀.2).nodup
  -- the task of the language has the language, and no other one in flight has it
  have own : t.phase.isOver = false →
      (l ∈ t.languages ↔ Assoc.get? w.state.gateway.pending l = some i) := by
    intro ho
    rw [← hv₀.1.1.2.pending]
    exact hv₀.1.2.state.mem_languages ⟨hv₀.2, ho⟩
  have blind : Blind s [] [.installer] fun v => GoesOn l w v ∧ HasTask i t v :=
    (blind_goesOn (by simp) (by simp) (by simp)).and (blind_hasTask (by simp))
  refine leads_advance (P := fun v => GoesOn l w v ∧ HasTask i t v)
    (C := fun v => (GoesOn l w v ∧ HasTask i t v) ∧ t.phase.isOver = false)
    (fun _ h => h.2) (fun hp v h => ⟨blind.ask _ (by simp [Call.area]) v h, by rw [hp]; rfl⟩)
    (fun _ ticket v h => .inl (h.1.1.onLoop fun id u _ hu => ?_))
    (fun _ hp v h => ⟨blind.ask _ (by simp [Call.area]) v h, by rw [hp]; rfl⟩)
    (fun answer => ?_) (fun hc => by rw [uncancelled] at hc; cases hc) (fun _ _ _ h => .inl h.1)
    v₀ ⟨hv₀.1.1, hv₀.2⟩
  · rintro v ⟨hv, ho⟩
    by_cases hl : l ∈ t.languages
    · exact (leads_conclude_over hs hl nodup ((own ho).mp hl) answer).weaken
        (fun _ _ h => .inr h) v hv
    · exact (leads_conclude_goesOn hs hl nodup (fun hi => hl ((own ho).mpr hi)) answer).weaken
        (fun _ _ h => .inl h) v hv.1
  · have task := Loop.setPhase_task v.state.loop i id (.awaiting ticket false)
    rw [hu.1] at task
    split at task
    · exact ⟨_, task, rfl⟩
    · exact ⟨u, task, hu.2⟩

/-- In every step that is no request the install of a language goes on, or is over. -/
theorem exec_outcome {R : List String → Prop} (hs : ∀ r, ¬ Reacts s r) {y : Step σ}
    (hy : OfGateway y) (hcall : ∀ b o, y ≠ .call b o) (h : Sound R none w) :
    GoesOn l w (exec s y w) ∨ ∃ b, Over l b w (exec s y w) := by
  have start : GoesOn l w w := .refl h
  cases y with
  | call b o => exact absurd rfl (hcall b o)
  | work j =>
    have blind : Blind s [.waits, .queue] [] fun v => GoesOn l w v ∧ Sound R none v :=
      (blind_goesOn (by simp) (by simp) (by simp)).and (blind_sound (by simp) (by simp) (by simp))
    have worked : Leads (fun v => GoesOn l w v ∧ Sound R none v) (work s j)
        (fun _ v => GoesOn l w v ∨ ∃ b, Over l b w v) fun v => GoesOn l w v ∨ ∃ b, Over l b w v :=
      leads_work blind (fun _ h => .inl h.1) fun i _ => leads_advance_ledger hs i
    refine exec_work_of (I := fun v => GoesOn l w v ∨ ∃ b, Over l b w v) (fun v b hv => ?_)
      (.inl start) (worked.run ⟨⟨start.1, start.2.pending, start.2.inFlight⟩, h.congr rfl rfl⟩)
    refine hv.imp (fun hv => ⟨hv.1, hv.2.pending, hv.2.inFlight⟩) ?_
    rintro ⟨success, hv⟩
    exact ⟨success, hv.ledger, hv.pending, hv.task⟩
  | answer ticket =>
    refine .inl (start.onLoop fun id u _ hu => ?_)
    obtain ⟨u', hu', rfl | ⟨_, -, rfl⟩⟩ := Loop.answer_task w.state.loop ticket hu.1
    · exact ⟨_, hu', hu.2⟩
    · exact ⟨_, hu', rfl⟩
  | cancel id => exact hy.elim
  | wait language => exact .inl (start.onLoop fun id u _ hu => ⟨u, hu⟩)
  | meanwhile f => exact .inl ⟨start.1, start.2.pending, start.2.inFlight⟩

/-! ## Requests -/

/-- What a request does that was answered with a task or not. -/
structure Answered (l : String) (languages : List String) (callback : Option Callback)
    (r : Option TaskId) (w v : World σ) : Prop where
  ledger : ledger l v =
    match callback with
    | some c => if r ≠ none ∧ l ∈ Gateway.requested languages then (ledger l w).ask c else ledger l w
    | none => ledger l w
  pending : ∀ id, Assoc.get? w.state.gateway.pending l = some id →
    Assoc.get? v.state.gateway.pending l = some id
  installs : r ≠ none → l ∈ Gateway.requested languages →
    Assoc.get? v.state.gateway.pending l ≠ none
  others : ¬ (r ≠ none ∧ l ∈ Gateway.requested languages) →
    Assoc.get? v.state.gateway.pending l = Assoc.get? w.state.gateway.pending l

/-- A request that is answered with no task changes nothing about the language. -/
theorem answered_none {languages : List String} {callback : Option Callback}
    (hledger : Install.ledger l v = Install.ledger l w)
    (hpending : v.state.gateway.pending = w.state.gateway.pending) :
    Answered l languages callback none w v := by
  refine ⟨?_, fun id hid => by rw [hpending]; exact hid, fun h => absurd rfl h,
    fun _ => by rw [hpending]⟩
  cases callback with
  | none => exact hledger
  | some c => simpa using hledger

theorem leads_dispatch_ledger (languages : List String) (callback : Option Callback)
    (w : World σ) :
    Leads (fun v => v = w) (Gateway.dispatch s languages callback)
      (fun r v => Answered l languages callback r w v) E := by
  let Same (v : World σ) : Prop := ledger l v = ledger l w ∧
    v.state.gateway.pending = w.state.gateway.pending
  have blind : Blind s [.installer] [.discovery] Same := by
    refine (blind_ledger (by simp)).and (Blind.of_state
      (J := fun st => st.gateway.pending = w.state.gateway.pending) fun p hp st st' hst hv => ?_)
    cases hst <;> first | exact hv | simp at hp
  refine Leads.mono (P := Same) (Gateway.leads_dispatch blind
    (fun r v log hv => ⟨hv.ledger, hv.pending, hv.installs, hv.others⟩)
    (fun v hv => answered_none hv.1 hv.2) fun v hv hne _ => ?_) (fun v hv => ?_) (fun _ _ h => h)
    fun _ h => h
  · have answered : Gateway.acceptedBy v.state (Gateway.requested languages) ≠ none :=
      Gateway.acceptedBy_ne_none hne
    refine ⟨?_, fun id hid => ?_, fun _ hl => ?_, fun hl => ?_⟩
    · rw [ledger_accept, hv.1]
      cases callback with
      | none => rfl
      | some c => simp [answered]
    · rw [Gateway.accept_pending, hv.2, if_neg fun hf => ?_]
      · exact hid
      · have := (Gateway.mem_fresh.mp hf).2
        rw [hv.2, hid] at this
        cases this
    · rw [Gateway.accept_pending]
      split
      · exact Option.some_ne_none _
      · next hf => exact fun hn => hf (Gateway.mem_fresh.mpr ⟨hl, hn⟩)
    · rw [Gateway.accept_pending, if_neg fun hf => hl ⟨answered, (Gateway.mem_fresh.mp hf).1⟩, hv.2]
  · subst hv
    exact ⟨rfl, rfl⟩

/-- What a request does, and what it is answered with. -/
theorem exec_request (b : Bool) (languages : List String) (callback : Option Callback)
    (w : World σ) : ∃ r,
    ((Gateway.dispatch s languages callback).run (w.setRunning b)).1 = .ok r ∧
      Answered l languages callback r w (exec s (.call b (.request languages callback)) w) := by
  obtain ⟨r, hr, answered⟩ := (leads_dispatch_ledger (s := s) (l := l) (E := fun _ => False)
    languages callback (w.setRunning b)).exists_ok rfl
  refine ⟨r, hr, ?_⟩
  have performed : ((perform s (.request languages callback)).run (w.setRunning b)).2 =
      ((Gateway.dispatch s languages callback).run (w.setRunning b)).2 := by
    unfold perform
    rw [run_bind_of_ok _ (Prod.ext hr rfl)]
    rfl
  rw [exec_call, performed]
  exact ⟨answered.ledger, answered.pending, answered.installs, answered.others⟩

/-! ## The ledger of a run -/

/-- Nobody is to be told twice, and nobody without an install. -/
structure Tidy (l : String) (w : World σ) : Prop where
  nodup : (ledger l w).listeners.Nodup
  idle : Assoc.get? w.state.gateway.pending l = none → (ledger l w).due = none

/-- At first nobody is to be told, and nobody was. -/
theorem ledger_initial (hw : Initial w) : ledger l w = ⟨none, []⟩ := by
  have hc : w.state.gateway.callbacks = [] := by rw [hw.state]
  rw [ledger, hc, hw.trace]
  rfl

theorem tidy_initial (hw : Initial w) : Tidy l w := by
  have start := ledger_initial (l := l) hw
  refine ⟨?_, fun _ => ?_⟩
  · rw [start]
    exact List.nodup_nil
  · rw [start]

/-- A step makes its entry, after which nothing is due while the language is not pending. -/
def Enters (s : Surroundings σ) (l : String) (y : Step σ) (w : World σ) : Prop :=
  ledger l (exec s y w) = (ledger l w).enter (entry s l y w) ∧
    (Assoc.get? (exec s y w).state.gateway.pending l = none → (ledger l (exec s y w)).due = none)

theorem enters_request (b : Bool) (languages : List String) (callback : Option Callback)
    (ht : Tidy l w) : Enters s l (.call b (.request languages callback)) w := by
  obtain ⟨r, hr, answered⟩ := exec_request (s := s) (l := l) b languages callback w
  refine ⟨?_, fun hidle => ?_⟩
  · rw [answered.ledger]
    cases callback with
    | none => rfl
    | some c =>
      simp only [entry, hr]
      cases r with
      | none => simp [Ledger.enter]
      | some j => by_cases hl : l ∈ Gateway.requested languages <;> simp [hl, Ledger.enter]
  · by_cases hl : r ≠ none ∧ l ∈ Gateway.requested languages
    · exact absurd hidle (answered.installs hl.1 hl.2)
    · have same : ledger l (exec s (.call b (.request languages callback)) w) = ledger l w := by
        rw [answered.ledger]
        cases callback with
        | none => rfl
        | some c => exact if_neg hl
      rw [same]
      exact ht.idle (answered.others hl ▸ hidle)

theorem enters_other {R : List String → Prop} (hs : ∀ r, ¬ Reacts s r) {y : Step σ}
    (hy : OfGateway y) (hcall : ∀ b o, y ≠ .call b o) (h : Sound R none w) (ht : Tidy l w) :
    Enters s l y w := by
  have hentry : entry s l y w = match ended l w (exec s y w) with
      | some success => .ends success
      | none => .nothing := by
    cases y with
    | call b o => exact absurd rfl (hcall b o)
    | _ => rfl
  unfold Enters
  rw [hentry]
  rcases exec_outcome (l := l) hs hy hcall h with goes | ⟨b, isOver⟩
  · rw [goes.ended]
    refine ⟨goes.1, fun hidle => ?_⟩
    rw [goes.1]
    exact ht.idle (goes.2.pending ▸ hidle)
  · rw [isOver.ended]
    refine ⟨isOver.ledger, fun _ => ?_⟩
    rw [isOver.ledger]
    rfl

/-- Each step makes its entry. -/
theorem exec_ledger {R : List String → Prop} (hs : ∀ r, ¬ Reacts s r) {y : Step σ}
    (hy : OfGateway y) (h : Sound R none w) (ht : Tidy l w) :
    ledger l (exec s y w) = (ledger l w).enter (entry s l y w) ∧ Tidy l (exec s y w) := by
  have entered : Enters s l y w := by
    cases y with
    | call b o =>
      cases o with
      | request languages callback => exact enters_request b languages callback ht
      | _ => exact hy.elim
    | _ => exact enters_other hs hy (fun _ _ => nofun) h ht
  refine ⟨entered.1, ?_, entered.2⟩
  rw [entered.1]
  exact Ledger.nodup_enter ht.nodup _

/-- The ledger is what the entries of a run make of it. -/
theorem run_ledger {R : List String → Prop} (hs : ∀ r, ¬ Reacts s r) {steps : List (Step σ)}
    (hsteps : ∀ y ∈ steps, OfGateway y) (h : Sound R none w) (ht : Tidy l w) :
    ledger l (run s steps w) = account s l steps w (ledger l w) ∧ Tidy l (run s steps w) := by
  induction steps generalizing w R with
  | nil => exact ⟨rfl, ht⟩
  | cons y rest ih =>
    have hy := hsteps y List.mem_cons_self
    obtain ⟨entered, tidy⟩ := exec_ledger (s := s) hs hy h ht
    have sound := exec_sound (s := s) (R := fun _ => True) hy.ne_cancel (fun _ _ => trivial)
      (h.mono fun _ _ => trivial)
    rw [run_cons, account, ← entered]
    exact ih (fun z hz => hsteps z (List.mem_cons_of_mem y hz)) sound tidy

/-! ## Who asked is told -/

/-- A callback waits for the end of an install that a task runs. -/
structure Awaits (l : String) (c : Callback) (id : TaskId) (told : List (Callback × Bool))
    (w : World σ) : Prop where
  hears : c ∈ (ledger l w).listeners
  told : tellings l w.trace = told
  task : Assoc.get? w.state.gateway.pending l = some id

variable {c : Callback} {id : TaskId} {told : List (Callback × Bool)}

/-- Requests only add to who waits. -/
theorem Awaits.answered {languages : List String} {callback : Option Callback} {r : Option TaskId}
    (h : Awaits l c id told w) (ha : Answered l languages callback r w v) :
    Awaits l c id told v := by
  have asked : ledger l v = ledger l w ∨ ∃ c', ledger l v = (ledger l w).ask c' := by
    rw [ha.ledger]
    cases callback with
    | none => exact .inl rfl
    | some c' =>
      dsimp only
      split
      · exact .inr ⟨c', rfl⟩
      · exact .inl rfl
  rcases asked with same | ⟨c', asked⟩
  · exact ⟨same ▸ h.hears, (congrArg Ledger.told same).trans h.told, ha.pending id h.task⟩
  · exact ⟨asked ▸ Ledger.listeners_subset_ask _ _ h.hears,
      (congrArg Ledger.told asked).trans h.told, ha.pending id h.task⟩

/-- In each step who waits goes on waiting, or the install is over. -/
theorem exec_awaits {R : List String → Prop} (hs : ∀ r, ¬ Reacts s r) {y : Step σ}
    (hy : OfGateway y) (h : Sound R none w) (hw : Awaits l c id told w) :
    Awaits l c id told (exec s y w) ∨ ∃ b, Over l b w (exec s y w) := by
  by_cases hcall : ∀ b o, y ≠ .call b o
  · refine (exec_outcome (l := l) hs hy hcall h).imp_left fun goes => ?_
    exact ⟨goes.1 ▸ hw.hears, (congrArg Ledger.told goes.1).trans hw.told,
      goes.2.pending.trans hw.task⟩
  · cases y with
    | call b o =>
      cases o with
      | request languages callback =>
        obtain ⟨r, -, answered⟩ := exec_request (s := s) (l := l) b languages callback w
        exact .inl (hw.answered answered)
      | _ => exact hy.elim
    | _ => exact absurd (fun _ _ => nofun) hcall

/-- As long as the task is in flight, who waits goes on waiting. -/
theorem run_awaits {R : List String → Prop} (hs : ∀ r, ¬ Reacts s r) (h : Sound R none w)
    (hw : Awaits l c id told w) {more : List (Step σ)} (hmore : ∀ y ∈ more, OfGateway y)
    (hflight : ∀ m, m <+: more → ∃ u, InFlight (run s m w).state id u) :
    Awaits l c id told (run s more w) := by
  induction more using List.reverseRecOn with
  | nil => exact hw
  | append_singleton m y ih =>
    have hm : ∀ z ∈ m, OfGateway z := fun z hz => hmore z (List.mem_append_left _ hz)
    have hy : OfGateway y := hmore y (List.mem_append_right _ (List.mem_singleton_self y))
    have before := ih hm fun k hk => hflight k (hk.trans (List.prefix_append m [y]))
    have sound : Sound (fun _ => True) none (run s m w) :=
      h.run fun i hi => (hm _ hi).ne_cancel i rfl
    obtain ⟨u, hu, ho⟩ := hflight _ List.prefix_rfl
    rw [run_append] at hu ⊢
    refine (exec_awaits hs hy sound before).resolve_right ?_
    rintro ⟨b, isOver⟩
    obtain ⟨id', u', hid', hu', hp⟩ := isOver.task
    obtain rfl := Option.some.inj (before.task.symm.trans hid')
    obtain rfl := Option.some.inj (hu.symm.trans hu')
    rw [hp] at ho
    cases ho

/-- **Callbacks are told exactly once, and the truth.** In any run of requests and of the loop, in
which no listener makes a request of its own, with `w` the world that it ends in:

* the calls about a language, and who is still to be told, are what the entries of the run make of
  them: whoever asks is told at the end of the install, once, in the order of asking;
* without an install of the language the table of callbacks does not mention it;
* whoever asks now and gets a task waits for the install that is in flight right after. As long as
  that goes on nobody is told. When it ends, all that wait are told its success, and after it
  neither the pending languages nor the table mention the language. -/
theorem callbacks_delivered (hs : ∀ r, ¬ Reacts s r) {w₀ : World σ} (hw : Initial w₀)
    {steps : List (Step σ)} (hsteps : ∀ y ∈ steps, OfGateway y) {w : World σ}
    (hrun : run s steps w₀ = w) (l : String) :
    ledger l w = account s l steps w₀ ⟨none, []⟩ ∧
    (Assoc.get? w.state.gateway.pending l = none → Assoc.get? w.state.gateway.callbacks l = none) ∧
    ∀ b languages c j, l ∈ languages → l ≠ "" →
      ((Gateway.dispatch s languages (some c)).run (w.setRunning b)).1 = .ok (some j) →
      ∃ id t, InFlight (exec s (.call b (.request languages (some c))) w).state id t ∧
        l ∈ t.languages ∧
        ∀ more : List (Step σ), (∀ y ∈ more, OfGateway y) →
          (∀ m, m <+: more → ∃ u, InFlight
            (run s m (exec s (.call b (.request languages (some c))) w)).state id u) →
          ∀ v, run s more (exec s (.call b (.request languages (some c))) w) = v →
            tellings l v.trace = tellings l w.trace ∧
            (v.state.gateway.listeners l).Nodup ∧ c ∈ v.state.gateway.listeners l ∧
            ∀ y u success, OfGateway y → HasTask id u (exec s y v) →
              u.phase = .finished success →
              tellings l (exec s y v).trace =
                ((v.state.gateway.listeners l).map fun c => (c, success)).reverse ++
                  tellings l w.trace ∧
              Assoc.get? (exec s y v).state.gateway.pending l = none ∧
              Assoc.get? (exec s y v).state.gateway.callbacks l = none := by
  have nocancel : ∀ more : List (Step σ), (∀ y ∈ more, OfGateway y) → NoCancel more :=
    fun more hmore i hi => (hmore _ hi).ne_cancel i rfl
  have sound : Sound (fun _ => True) none w := by
    rw [← hrun]
    exact (sound_initial (R := fun _ => True) hw).run (nocancel steps hsteps)
  obtain ⟨accounted, tidy⟩ := run_ledger (l := l) hs hsteps
    (sound_initial (R := fun _ => True) hw) (tidy_initial hw)
  rw [hrun] at accounted tidy
  refine ⟨ledger_initial (l := l) hw ▸ accounted, tidy.idle, fun b languages c j hl hne hj => ?_⟩
  have hwanted : l ∈ Gateway.requested languages := Gateway.mem_requested.mpr ⟨hl, hne⟩
  generalize hw' : exec s (.call b (.request languages (some c))) w = w'
  have sound' : Sound (fun _ => True) none w' :=
    hw' ▸ exec_sound nofun (fun _ _ => trivial) sound
  have tidy' : Tidy l w' :=
    hw' ▸ (exec_ledger hs (y := .call b (.request languages (some c))) trivial sound tidy).2
  -- the request is answered with a task, so that the language is pending
  obtain ⟨r, hr, answered⟩ := exec_request (s := s) (l := l) b languages (some c) w
  obtain rfl := Except.ok.inj (hr.symm.trans hj)
  rw [hw'] at answered
  have asked : ledger l w' = (ledger l w).ask c :=
    answered.ledger.trans (if_pos ⟨nofun, hwanted⟩)
  obtain ⟨id, hid⟩ := Option.ne_none_iff_exists'.mp (answered.installs nofun hwanted)
  have awaits : Awaits l c id (tellings l w.trace) w' :=
    ⟨asked ▸ Ledger.mem_listeners_ask _ c, congrArg Ledger.told asked, hid⟩
  obtain ⟨t, ht, -, hlt⟩ := (sound'.state.pending l id).mp hid
  refine ⟨id, t, ht, hlt, ?_⟩
  rintro more hmore hflight v rfl
  have waits := run_awaits hs sound' awaits hmore hflight
  have soundv := sound'.run (s := s) (nocancel more hmore)
  refine ⟨waits.told, (run_ledger hs hmore sound' tidy').2.nodup, waits.hears, ?_⟩
  intro y u success hy hu hp
  rcases exec_awaits hs hy soundv waits with awaits' | ⟨success', isOver⟩
  · have soundy := exec_sound (s := s) (R := fun _ => True) hy.ne_cancel (fun _ _ => trivial) soundv
    obtain ⟨u', hu', -⟩ := (soundy.state.pending l id).mp awaits'.task
    obtain rfl := Option.some.inj (hu.symm.trans hu'.1)
    exact absurd hu'.2 (by rw [hp]; nofun)
  · obtain ⟨id', u', hid', hu', hp'⟩ := isOver.task
    obtain rfl := Option.some.inj (waits.task.symm.trans hid')
    obtain rfl := Option.some.inj (hu.symm.trans hu')
    obtain rfl := Phase.finished.inj (hp'.symm.trans hp)
    refine ⟨(congrArg Ledger.told isOver.ledger).trans ?_, isOver.pending,
      congrArg Ledger.due isOver.ledger⟩
    exact congrArg (_ ++ ·) waits.told

/-- An installer that is done at once, and listeners that always fail. -/
def failingListeners : Surroundings Unit where
  reply
    | .install _, x => (.ok (.now (.bool true)), x)
    | .tell _ _ _, x => (.ok ⟨[], some (.external "not now")⟩, x)
    | c, x => (Surroundings.outOfReach Unit).reply c x
  machine _ := .empty

/-- Of two listeners that ask for lua the first one asks twice, and both are told once, in the order
in which they asked first, although each of them fails. -/
theorem callbacks_delivered_twice :
    let s := failingListeners
    let w₀ : World Unit := .fresh () { gateway := { installer := .present } }
    let steps : List (Step Unit) :=
      [.call true (.request ["lua"] (some (.outside "first"))),
        .call true (.request ["go", "lua"] (some (.outside "second")))]
    let w := run s steps w₀
    let v := exec s (.call true (.request ["lua"] (some (.outside "first")))) w
    tellings "lua" (exec s (.work (.task 0)) v).trace =
      [(.outside "second", true), (.outside "first", true)] := by
  intro s w₀ steps w v
  have quiet : ∀ r, ¬ Reacts s r := by
    rintro r ⟨name, language, success, o, reaction, hr, hmem⟩
    cases hr
    cases hmem
  have initial : Initial w₀ := ⟨rfl, rfl⟩
  have ofGateway : ∀ y ∈ steps, OfGateway y := by
    intro y hy
    rcases List.mem_cons.mp hy with rfl | hy
    · trivial
    · rw [List.mem_singleton.mp hy]
      trivial
  have answered : ((Gateway.dispatch s ["lua"] (some (.outside "first"))).run
      (w.setRunning true)).1.toOption = some (some 0) := by decide +kernel
  have accepted : ((Gateway.dispatch s ["lua"] (some (.outside "first"))).run
      (w.setRunning true)).1 = .ok (some 0) := by
    generalize ((Gateway.dispatch s ["lua"] (some (.outside "first"))).run
      (w.setRunning true)).1 = r at answered
    cases r with
    | error f => cases answered
    | ok r => rw [Option.some.inj answered]
  have own : ∀ (id : TaskId) (t : Task),
      ([{ languages := ["lua"] }, { languages := ["go"] }] : List Task)[id]? = some t →
        "lua" ∈ t.languages → id = 0 := by
    intro id t ht hl
    rcases id with _ | _ | id
    · rfl
    · obtain rfl := Option.some.inj ht
      simp at hl
    · cases ht
  have tasks : v.state.loop.tasks = [{ languages := ["lua"] }, { languages := ["go"] }] := by
    decide +kernel
  obtain ⟨-, -, asks⟩ := callbacks_delivered quiet initial ofGateway (w := w) rfl "lua"
  obtain ⟨id, t, ht, hl, waits⟩ :=
    asks true ["lua"] (.outside "first") 0 (by simp) (by simp) accepted
  change InFlight v.state id t at ht
  obtain rfl : id = 0 := own id t (tasks ▸ ht.1) hl
  have flight : ∀ m, m <+: [] → ∃ u, InFlight (run s m v).state 0 u := by
    intro m hm
    rw [List.prefix_nil.mp hm, TreeFeatures.run, List.foldl_nil]
    exact ⟨t, ht⟩
  obtain ⟨-, -, -, ends⟩ := waits [] (by simp) flight v rfl
  have isOver : HasTask 0 { languages := ["lua"], phase := .finished true }
      (exec s (.work (.task 0)) v) := by
    unfold HasTask
    decide +kernel
  have told := (ends (.work (.task 0)) _ true trivial isOver rfl).1
  have listeners : v.state.gateway.listeners "lua" = [.outside "first", .outside "second"] := by
    decide +kernel
  have before : tellings "lua" w.trace = [] := by decide +kernel
  rw [told, listeners, before]
  rfl

end TreeFeatures.Install
