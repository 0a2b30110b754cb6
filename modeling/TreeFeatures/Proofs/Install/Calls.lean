import TreeFeatures.Proofs.Install.Delivery

/-!
# Tellings are calls

A ledger is about who was told, which the trace records when a listener gets its turn (`tell`). Who
is outside is then called, and that call is all that it can notice. After each step the two agree:
the calls about a language that listeners outside got are the tellings of these listeners, one for
one and in the same order.

* `leads_tell_matched`: telling a listener outside is calling it, once, whatever it answers and
  whatever requests it makes; telling the enablement calls nobody outside.
* `exec_matched`, `run_matched`: what one step keeps, and a whole run.
* `calls_accounted`: so the calls are what the entries of a run make due.
-/

namespace TreeFeatures.Install

open Act

/-- The calls of listeners outside about a language, newest first. -/
def calls (l : String) (trace : List Event) : List (String × Bool) :=
  trace.filterMap fun
    | .asked (.tell name l' b) => if l' = l then some (name, b) else none
    | _ => none

/-- The listeners outside among those who were told. -/
def outsiders (told : List (Callback × Bool)) : List (String × Bool) :=
  told.filterMap fun
    | (.outside name, b) => some (name, b)
    | (.enablement, _) => none

variable {σ : Type} {s : Surroundings σ} {l : String} {w : World σ} {E : World σ → Prop}

/-- Who was told about a language and is outside was called about it, and nobody else. -/
def Matched (l : String) (w : World σ) : Prop := calls l w.trace = outsiders (tellings l w.trace)

theorem calls_asked {c : Call} (h : c.area ≠ .listener) (trace : List Event) :
    calls l (.asked c :: trace) = calls l trace := by
  cases c with
  | tell name l' b => exact absurd rfl h
  | _ => rfl

theorem calls_tell (name l' : String) (b : Bool) (trace : List Event) :
    calls l (.asked (.tell name l' b) :: trace) =
      if l' = l then (name, b) :: calls l trace else calls l trace := by
  unfold calls
  rw [List.filterMap_cons]
  split <;> split <;> simp_all

/-- Only calls of listeners matter. -/
theorem blind_matched {parts : List Part} {areas : List Area} (h : Area.listener ∉ areas) :
    Blind s parts areas (Matched l) := by
  refine ⟨fun _ _ hw => hw, fun _ _ _ _ _ hw => hw, fun c hc w hw => ?_⟩
  have other : c.area ≠ .listener := fun e => h (e ▸ hc)
  exact (calls_asked other w.trace).trans hw

theorem matched_dispatch (languages : List String) (callback : Option Callback) :
    Keeps (Matched l) (Gateway.dispatch s languages callback) :=
  Gateway.keeps_dispatch (blind_matched (by simp)) languages callback

/-- Telling a listener outside is calling it, once; telling the enablement calls nobody. -/
theorem leads_tell_matched (l' : String) (b : Bool) (c : Callback) :
    Leads (Matched l) (tell s l' b c) (fun _ => Matched l) E := by
  cases c with
  | enablement =>
    refine leads_tell_enablement (blind_matched (by simp)) (fun _ hw => hw) fun w hw => ?_
    refine Eq.trans hw ?_
    rw [tellings_told]
    split <;> rfl
  | outside name =>
    -- between the turn of the listener and its call one telling is ahead
    let Ahead (w : World σ) : Prop := outsiders (tellings l w.trace) =
      if l' = l then (name, b) :: calls l w.trace else calls l w.trace
    refine (leads_emit (Q := Ahead) fun w hw => ?_).bind fun _ =>
      Leads.shielded (leads_respond_outside (fun w hw => ?_) (fun _ _ _ hw => hw)
        fun r _ => matched_dispatch r.languages r.callback) fun _ _ hw => hw
    · show outsiders (tellings l (.told (.outside name) l' b :: w.trace)) = _
      rw [tellings_told]
      split
      · exact congrArg (List.cons (name, b)) hw.symm
      · exact hw.symm
    · exact (calls_tell name l' b w.trace).trans hw.symm

/-- Each step makes the calls that go with its tellings. -/
theorem exec_matched (y : Step σ) (hw : Matched l w) : Matched l (exec s y w) := by
  cases y with
  | call b o =>
    refine exec_call_of (fun _ _ h => h) ?_
    exact perform_keeps_of_dispatch (blind_matched (by simp))
      (fun languages callback _ => matched_dispatch languages callback) hw
  | work j =>
    refine exec_work_of (fun _ _ h => h) hw ?_
    have announced : ∀ (languages : List String) b,
        Leads (Matched l) (languages.forM (announce s b)) (fun _ => Matched l) (Matched l) := by
      refine fun languages b => Leads.forM_mem fun l' _ => leads_state_any.bind fun st => ?_
      refine (leads_update (Q := Matched l) fun _ h => h).bind fun _ => ?_
      exact Leads.forM_mem fun c _ => leads_tell_matched l' b c
    exact (leads_work_by (blind_matched (by simp)) announced j).run hw
  | _ => exact hw

/-- **Tellings are calls.** In every world that a run ends in, the calls of listeners outside about a
language are the tellings of these listeners. -/
theorem run_matched (hw : Initial w) (steps : List (Step σ)) :
    calls l (run s steps w).trace = outsiders (tellings l (run s steps w).trace) := by
  refine run_induction (I := Matched l) (fun y _ _ => exec_matched y) ?_
  rw [Matched, hw.trace]
  rfl

/-- **What listeners outside notice.** In any run of requests and of the loop, in which no listener
makes a request of its own, the calls of listeners outside about a language are what the entries of
the run make due: whoever asks is called once at the end of the install, with its success, in the
order of asking. -/
theorem calls_accounted (hs : ∀ r, ¬ Reacts s r) (hw : Initial w) {steps : List (Step σ)}
    (hsteps : ∀ y ∈ steps, OfGateway y) (l : String) :
    calls l (run s steps w).trace = outsiders (account s l steps w ⟨none, []⟩).told := by
  have accounted := (run_ledger (l := l) hs hsteps
    (sound_initial (R := fun _ => True) hw) (tidy_initial hw)).1
  rw [run_matched hw steps, ← ledger_initial hw, ← accounted]
  rfl

end TreeFeatures.Install
