import TreeFeatures.Proofs.Run

/-!
# What the surroundings answered

A trace tells which calls were made, not what the answers were. While an operation is at work only
its calls change the surroundings, so making the calls of its trace again gives the same answers
(`replay`). The `chronicle` of a run does this step by step: it has all that happened, with the
answers, newest first.

* `Follows`: a world that was reached from another one by calls and changes of the program's own
  state only. `Follows.ask`: the next answer of the chronicle is the one that the program got.
* `Recorded`: a property of chronicle and state, to be used with the rules for actions.
* `chronicle_induction`: what every step keeps, a run keeps.
* `event_chronicle`: without the answers, the chronicle is the trace.
-/

namespace TreeFeatures

open Act

/-- Something that happened, a call with the answer to it. -/
inductive Moment where
  | answered (c : Call) (r : Except Fault c.Reply)
  | told (listener : Callback) (language : String) (success : Bool)
  | requested (name : String) (task : Option TaskId)

/-- What happened, without the answer. -/
def Moment.event : Moment → Event
  | answered c _ => .asked c
  | told listener language success => .told listener language success
  | requested name task => .requested name task

variable {σ : Type}

/-- Make the calls of a trace again: what happens, and the surroundings after it. -/
def replay (s : Surroundings σ) (x : σ) : List Event → List Moment × σ
  | [] => ([], x)
  | .asked c :: es =>
    let r := replay s x es
    (.answered c (s.reply c r.2).1 :: r.1, (s.reply c r.2).2)
  | .told listener language success :: es =>
    let r := replay s x es
    (.told listener language success :: r.1, r.2)
  | .requested name task :: es =>
    let r := replay s x es
    (.requested name task :: r.1, r.2)

/-- A chronicle with what happened on the way from one world to a later one. -/
def extend (s : Surroundings σ) (h : List Moment) (w v : World σ) : List Moment :=
  (replay s w.outside (news w v)).1 ++ h

/-- All that happened in several steps from a world, after a chronicle of what was before. -/
def chronicle (s : Surroundings σ) : List (Step σ) → World σ → List Moment → List Moment
  | [], _, h => h
  | x :: steps, w, h => chronicle s steps (exec s x w) (extend s h w (exec s x w))

variable {s : Surroundings σ} {h : List Moment} {w v : World σ}

theorem event_replay (x : σ) (es : List Event) : (replay s x es).1.map Moment.event = es := by
  induction es with
  | nil => rfl
  | cons e es ih =>
    cases e <;> exact congrArg (List.cons _) ih

/-- An answer of the chronicle is one that the surroundings give. -/
theorem answered_of_mem_replay {c : Call} {r : Except Fault c.Reply} (x : σ) {es : List Event}
    (hr : .answered c r ∈ (replay s x es).1) : ∃ o, (s.reply c o).1 = r := by
  induction es with
  | nil => cases hr
  | cons e es ih =>
    cases e with
    | asked c' =>
      rcases List.mem_cons.mp hr with e | hr
      · cases e
        exact ⟨_, rfl⟩
      · exact ih hr
    | _ => exact ih ((List.mem_cons.mp hr).resolve_left nofun)

/-- What every step keeps, a run keeps. -/
theorem chronicle_induction {K : List Moment → World σ → Prop} {steps : List (Step σ)}
    (hstep : ∀ x ∈ steps, ∀ h w, K h w → K (extend s h w (exec s x w)) (exec s x w))
    (hw : K h w) : K (chronicle s steps w h) (run s steps w) := by
  induction steps generalizing w h with
  | nil => exact hw
  | cons x rest ih =>
    exact ih (fun y hy => hstep y (List.mem_cons_of_mem x hy)) (hstep x List.mem_cons_self h w hw)

/-! ## On the way -/

/-- A world that was reached from another one by calls and changes of the program's state only. -/
structure Follows (s : Surroundings σ) (w v : World σ) : Prop where
  trace : w.trace <:+ v.trace
  outside : v.outside = (replay s w.outside (news w v)).2

theorem Follows.refl (w : World σ) : Follows s w w :=
  ⟨List.suffix_rfl, by rw [news_self]; rfl⟩

theorem extend_self (w : World σ) : extend s h w w = h := by
  rw [extend, news_self]
  rfl

/-- The next answer of the chronicle is the one that the program gets. -/
theorem Follows.ask (hv : Follows s w v) (c : Call) :
    Follows s w (afterCall s c v) ∧
      extend s h w (afterCall s c v) = .answered c (s.reply c v.outside).1 :: extend s h w v := by
  have hnews : news w (afterCall s c v) = .asked c :: news w v := news_cons hv.trace rfl
  refine ⟨⟨hv.trace.trans (List.suffix_cons _ _), ?_⟩, ?_⟩
  · rw [hnews, replay, ← hv.outside]
    rfl
  · rw [extend, hnews, replay, ← hv.outside]
    rfl

theorem Follows.told (hv : Follows s w v) (c : Callback) (l : String) (b : Bool) :
    Follows s w { v with trace := .told c l b :: v.trace } ∧
      extend s h w { v with trace := .told c l b :: v.trace } = .told c l b :: extend s h w v := by
  have hnews : news w { v with trace := .told c l b :: v.trace } = .told c l b :: news w v :=
    news_cons hv.trace rfl
  refine ⟨⟨hv.trace.trans (List.suffix_cons _ _), ?_⟩, ?_⟩
  · rw [hnews, replay, ← hv.outside]
  · rw [extend, hnews, replay]
    rfl

theorem Follows.requested (hv : Follows s w v) (name : String) (task : Option TaskId) :
    Follows s w { v with trace := .requested name task :: v.trace } ∧
      extend s h w { v with trace := .requested name task :: v.trace } =
        .requested name task :: extend s h w v := by
  have hnews : news w { v with trace := .requested name task :: v.trace } =
      .requested name task :: news w v := news_cons hv.trace rfl
  refine ⟨⟨hv.trace.trans (List.suffix_cons _ _), ?_⟩, ?_⟩
  · rw [hnews, replay, ← hv.outside]
  · rw [extend, hnews, replay]
    rfl

/-- On the way from a world with a chronicle, chronicle and state have a property. -/
structure Recorded (s : Surroundings σ) (h : List Moment) (w : World σ)
    (K : List Moment → State → Prop) (v : World σ) : Prop where
  follows : Follows s w v
  holds : K (extend s h w v) v.state

variable {K K' : List Moment → State → Prop} {E : World σ → Prop}

theorem Recorded.refl (hw : K h w.state) : Recorded s h w K w :=
  ⟨.refl w, by rw [extend_self]; exact hw⟩

theorem Recorded.mono (hv : Recorded s h w K v) (hK : ∀ h st, K h st → K' h st) :
    Recorded s h w K' v :=
  ⟨hv.follows, hK _ _ hv.holds⟩

/-- The state changes, and what is known about it. -/
theorem Recorded.update (hv : Recorded s h w K v) {st : State}
    (hK : ∀ h, K h v.state → K' h st) : Recorded s h w K' { v with state := st } :=
  ⟨⟨hv.follows.trace, hv.follows.outside⟩, hK _ hv.holds⟩

theorem Recorded.log (hv : Recorded s h w K v) (l : List LogEntry) :
    Recorded s h w K { v with log := l } :=
  ⟨⟨hv.follows.trace, hv.follows.outside⟩, hv.holds⟩

theorem Recorded.ask (hv : Recorded s h w K v) (c : Call) :
    Recorded s h w (fun h st => ∃ h', h = .answered c (s.reply c v.outside).1 :: h' ∧ K h' st)
      (afterCall s c v) :=
  ⟨(hv.follows.ask c (h := h)).1, _, (hv.follows.ask c).2, hv.holds⟩

theorem Recorded.told (hv : Recorded s h w K v) (c : Callback) (l : String) (b : Bool) :
    Recorded s h w (fun h st => ∃ h', h = .told c l b :: h' ∧ K h' st)
      { v with trace := .told c l b :: v.trace } :=
  ⟨(hv.follows.told c l b (h := h)).1, _, (hv.follows.told c l b).2, hv.holds⟩

theorem Recorded.requested (hv : Recorded s h w K v) (name : String) (task : Option TaskId) :
    Recorded s h w (fun h st => ∃ h', h = .requested name task :: h' ∧ K h' st)
      { v with trace := .requested name task :: v.trace } :=
  ⟨(hv.follows.requested name task (h := h)).1, _, (hv.follows.requested name task).2, hv.holds⟩

/-- A property that more history cannot make false, and certain changes of the state neither. -/
theorem blind_recorded {parts : List Part} {areas : List Area}
    (hgrows : ∀ m h st, K h st → K (m :: h) st)
    (hwrite : ∀ p ∈ parts, ∀ h st st', State.Write p st st' → K h st → K h st') :
    Blind s parts areas (Recorded s h w K) where
  log _ l hv := hv.log l
  write p hp _ st hst hv := hv.update fun h => hwrite p hp h _ st hst
  ask c _ _ hv := (hv.ask c).mono fun _ _ ⟨_, he, hK⟩ => he ▸ hgrows _ _ _ hK

/-- A call, with what it was answered. -/
theorem leads_attempt_recorded (c : Call) :
    Leads (Recorded s h w K) (attempt (Act.ask s c))
      (fun r => Recorded s h w fun h st => ∃ h', h = .answered c r :: h' ∧ K h' st) E :=
  leads_attempt_ask fun _ hv => hv.ask c

/-! ## Chronicle and trace -/

/-- Nothing makes a trace shorter. -/
theorem blind_trace {parts : List Part} {areas : List Area} (es : List Event) :
    Blind s parts areas fun v => es <:+ v.trace :=
  ⟨fun _ _ h => h, fun _ _ _ _ _ h => h, fun _ _ _ h => h.trans (List.suffix_cons _ _)⟩

theorem trace_dispatch (es : List Event) (languages : List String) (callback : Option Callback) :
    Keeps (fun v => es <:+ v.trace) (Gateway.dispatch s languages callback) :=
  Gateway.keeps_dispatch_of (blind_trace es) fun _ h _ => h

theorem trace_unheard (es : List Event) (l : String) :
    Install.Unheard s l fun v => es <:+ v.trace where
  blind := blind_trace es
  dequeue _ h := h
  forget _ h := h
  told _ _ _ h := h.trans (List.suffix_cons _ _)
  requested _ _ _ h := h.trans (List.suffix_cons _ _)
  dispatch r _ := trace_dispatch es r.languages r.callback

/-- Each step goes on with the trace. -/
theorem trace_exec (x : Step σ) (w : World σ) : w.trace <:+ (exec s x w).trace := by
  cases x with
  | call b o =>
    refine exec_call_of (I := fun v => w.trace <:+ v.trace) (fun _ _ h => h) ?_
    exact perform_keeps_of_dispatch (blind_trace w.trace)
      (fun languages callback _ => trace_dispatch w.trace languages callback) List.suffix_rfl
  | work j =>
    refine exec_work_of (I := fun v => w.trace <:+ v.trace) (fun _ _ h => h) List.suffix_rfl ?_
    have worked : Leads (fun v => w.trace <:+ v.trace) (Install.work s j)
        (fun _ v => w.trace <:+ v.trace) fun v => w.trace <:+ v.trace :=
      Install.leads_work_quiet (blind_trace w.trace)
        (fun l => (trace_unheard w.trace l).withstands) j
    exact worked.run List.suffix_rfl
  | _ => exact List.suffix_rfl

theorem event_chronicle (steps : List (Step σ)) {w : World σ}
    (hw : h.map Moment.event = w.trace) :
    (chronicle s steps w h).map Moment.event = (run s steps w).trace := by
  refine chronicle_induction (K := fun h w => h.map Moment.event = w.trace) ?_ hw
  intro x _ h w hw
  rw [extend, List.map_append, event_replay, hw, news_append_trace (trace_exec x w)]

end TreeFeatures
