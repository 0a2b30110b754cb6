import TreeFeatures.Proofs.Run

/-!
# Reached worlds

The enablement hears about the end of an install in the middle of a job: the languages are no longer
in flight, and other listeners may have been told before. `Reached` are the worlds between two steps
of a run and those on the way through a job, piece by piece. The pieces may come in any order, so
these are more worlds than jobs really pass.

* `Configured`: documents wait only once the settings are known.
* `leads_settings_known`, `keeps_attach_configured`: so it is when a document joins those that wait.
* `exec_configured`: every step keeps it. `Reached.configured`: it holds in every reached world.
-/

namespace TreeFeatures

open Act

variable {σ : Type} {s : Surroundings σ} {I E : World σ → Prop}

/-- The worlds that runs pass, between two steps or in the middle of a job. -/
inductive Reached (s : Surroundings σ) : World σ → Prop where
  | start {w : World σ} : Initial w → Reached s w
  | step {w : World σ} (x : Step σ) : Reached s w → Reached s (exec s x w)
  /-- A job was taken from the queue. -/
  | job {w : World σ} (j : Job) : Reached s w → Reached s (w.atWork j)
  /-- The installer was called, or asked for the value of a ticket. -/
  | called {w : World σ} (c : Call) : c.area = .installer → Reached s w → Reached s (afterCall s c w)
  /-- The answer of the installer was judged. -/
  | judged {w : World σ} (languages : List String) (answer : Except Fault Value) :
      Reached s w → Reached s ((Install.judge languages answer).run w).2
  /-- Languages were taken from their tasks. -/
  | unassigned {w : World σ} (languages : List String) : Reached s w →
      Reached s { w with state :=
        { w.state with gateway := w.state.gateway.unassign languages } }
  /-- The listeners of a language were taken off the table. -/
  | forgotten {w : World σ} (language : String) : Reached s w →
      Reached s { w with state := { w.state with gateway := w.state.gateway.forget language } }
  /-- A listener is being told about the end of an install. -/
  | telling {w : World σ} (c : Callback) (language : String) (success : Bool) :
      Reached s w → Reached s { w with trace := .told c language success :: w.trace }
  /-- A listener was told about the end of an install. -/
  | told {w : World σ} (c : Callback) (language : String) (success : Bool) :
      Reached s w → Reached s ((Install.tell s language success c).run w).2

/-! ## Settings that are known -/

/-- Documents wait only once the settings are known. -/
def Configured (st : State) : Prop := ∀ l, st.waitersOf l ≠ [] → st.settings ≠ none

theorem blind_known {parts : List Part} {areas : List Area} :
    Blind s parts areas fun w => w.state.settings ≠ none := by
  refine Blind.of_state (J := fun st => st.settings ≠ none) fun p _ st st' hst h => ?_
  cases hst with
  | settings => exact Option.some_ne_none _
  | _ => exact h

theorem blind_configured {parts : List Part} {areas : List Area} (h : Part.waiters ∉ parts) :
    Blind s parts areas fun w => Configured w.state := by
  refine Blind.of_state (J := Configured) fun p hp st st' hst hc => ?_
  cases hst with
  | waiters => exact absurd hp h
  | settings => exact fun _ _ => Option.some_ne_none _
  | _ => exact hc

theorem Configured.dequeue {st : State} (h : Configured st) (language : String) :
    Configured (st.dequeue language) := by
  intro l hl
  obtain ⟨y, hy⟩ := List.exists_mem_of_ne_nil _ hl
  exact h l (List.ne_nil_of_mem (Enablement.of_mem_waitersOf_dequeue hy))

/-- Once the settings are known, any document may wait. -/
theorem configured_of_known {st : State} (h : st.settings ≠ none) : Configured st := fun _ _ => h

namespace Enablement

/-- Going by what loading the settings came to makes them known, unless it fails. -/
theorem leads_goBy_known (h : Blind s [.settings] [] I) (loaded : Except Fault Settings) :
    Leads I (goBy loaded) (fun x w => I w ∧ w.state.settings = some x) I := by
  have keep : ∀ x, Leads I (keepSettings x >>= fun _ => pure x)
      (fun y w => I w ∧ w.state.settings = some y) I := fun x =>
    (leads_update (Q := fun w => I w ∧ w.state.settings = some x) fun w hw =>
      ⟨h.write .settings (by simp) w _ (.settings w.state x) hw, rfl⟩).bind
        fun _ => leads_pure fun _ hw => hw
  rcases loaded with f | x
  · cases f with
    | report r => exact h.keeps_note.leads.bind fun _ => keep _
    | _ => exact fun _ hw => hw
  · exact keep x

/-- Asking for the settings makes them known, unless it fails. -/
theorem leads_settings_known (h : Blind s [.settings] [] I) :
    Leads I (settings s) (fun x w => I w ∧ w.state.settings = some x) I := by
  refine leads_state_eq.bind fun st => ?_
  cases hst : st.settings with
  | some x =>
    refine leads_pure fun w ⟨he, hw⟩ => ⟨hw, ?_⟩
    rw [← he, hst]
  | none =>
    refine Leads.mono (P := I) ?_ (fun w hw => hw.2) (fun _ _ hw => hw) fun _ hw => hw
    refine keeps_machine.leads.bind fun m => (keeps_noteAll h.log).leads.bind fun _ => ?_
    exact leads_goBy_known h _

/-- The flags of a language are those under the settings that are then known. -/
theorem leads_resolve_known (h : Blind s [.settings] [] I) (language : Option String) :
    Leads I (resolve s language)
      (fun flags w => I w ∧ ∃ x, w.state.settings = some x ∧ flags = x.resolve language) I :=
  (leads_settings_known h).bind fun x => leads_pure fun _ hw => ⟨hw.1, x, hw.2, rfl⟩

/-- Once there is a plan, the settings are known. -/
theorem leads_plan_known (filetype : String) :
    Leads (fun w => Configured w.state) (plan s filetype)
      (fun p w => Configured w.state ∧ (p ≠ none → w.state.settings ≠ none))
      fun w => Configured w.state := by
  have blind : Blind s planParts [.editor, .discovery] fun w => Configured w.state :=
    blind_configured (by simp)
  refine leads_plan_any (blind.mono (by simp) (by simp))
    (keeps_prepare (blind.mono (by simp) (by simp))).leads (fun w hw => ⟨hw, nofun⟩)
    fun known language => ?_
  have known : Blind s [.installer] [.editor, .discovery] fun w =>
      Configured w.state ∧ w.state.settings ≠ none :=
    (blind.mono (by simp) (by simp)).and blind_known
  refine (leads_resolve_known (blind.mono (by simp) (by simp)) _).bind fun flags => ?_
  refine Leads.mono (P := fun w => Configured w.state ∧ w.state.settings ≠ none)
    (E := fun w => Configured w.state ∧ w.state.settings ≠ none) ?_
    (fun w ⟨hw, x, hx, _⟩ => ⟨hw, hx ▸ Option.some_ne_none x⟩) (fun _ _ hw => hw) fun _ hw => hw.1
  exact (leads_decideOn known _).weaken fun _ _ hw => ⟨hw.1.1, fun _ => hw.1.2⟩

/-- When a document joins those that wait, the settings are known. -/
theorem keeps_attach_configured (document : Handle) (filetype : String) :
    Keeps (fun w => Configured w.state) (attach s document filetype) := by
  refine Leads.keeps ((leads_plan_known filetype).bind fun p => ?_)
  refine (leads_carryOut (blind_configured (by simp)) (fun _ hw => hw.1) document filetype p
    fun q hq _ => ?_).weaken fun _ _ hw => hw
  have dispatch : Keeps (fun w => w.state.settings ≠ none)
      (Gateway.dispatch s [q.language] (some .enablement)) :=
    Gateway.keeps_dispatch blind_known _ _
  refine (keeps_installFor blind_known dispatch document filetype).leads.mono (fun w hw => ?_)
    (fun _ _ => configured_of_known) fun _ => configured_of_known
  exact hw.2 (Option.isSome_iff_ne_none.mp (Option.isSome_of_mem hq))

end Enablement

/-! ## Runs -/

theorem configured_unheard (language : String) :
    Install.Unheard s language fun w => Configured w.state where
  blind := blind_configured (by simp)
  dequeue _ hw := hw.dequeue language
  forget _ hw := hw
  told _ _ _ hw := hw
  requested _ _ _ hw := hw
  dispatch _ _ := Gateway.keeps_dispatch (blind_configured (by simp)) _ _

/-- Every step keeps it that documents wait only once the settings are known. -/
theorem exec_configured (x : Step σ) {w : World σ} (hw : Configured w.state) :
    Configured (exec s x w).state := by
  cases x with
  | call b o =>
    refine exec_call_of (I := fun w => Configured w.state) (fun _ _ hv => hv) ?_
    exact perform_keeps_by (blind_configured (by simp))
      (Enablement.keeps_prepare (blind_configured (by simp)))
      (fun _ => Enablement.keeps_attach_configured)
      (fun _ _ _ _ => Gateway.keeps_dispatch (blind_configured (by simp)) _ _) hw
  | work j =>
    refine exec_work_of (I := fun w => Configured w.state) (fun _ _ hv => hv) hw ?_
    have worked : Leads (fun w => Configured w.state) (Install.work s j)
        (fun _ w => Configured w.state) fun w => Configured w.state :=
      Install.leads_work_quiet (blind_configured (by simp))
        (fun l => (configured_unheard l).withstands) j
    exact worked.run hw
  | _ => exact hw

theorem Initial.configured {w : World σ} (hw : Initial w) : Configured w.state := by
  rw [hw.state]
  exact fun _ hl => absurd rfl hl

/-- **Documents wait only once the settings are known**, also in the middle of a job. -/
theorem Reached.configured {w : World σ} (hw : Reached s w) : Configured w.state := by
  induction hw with
  | start h => exact h.configured
  | step x _ ih => exact exec_configured x ih
  | judged languages answer _ ih =>
    have blind : Blind s [.errors] [] fun w => Configured w.state := blind_configured (by simp)
    exact (Install.leads_judge (E := fun w => Configured w.state) blind languages answer).run ih
  | told c language success _ ih =>
    exact (((configured_unheard language).withstands success).leads_tell
      (E := fun w => Configured w.state) c).run ih
  | _ => assumption

/-- What a run reaches is reached. -/
theorem Reached.run {w : World σ} (hw : Reached s w) (steps : List (Step σ)) :
    Reached s (run s steps w) :=
  run_induction (fun x _ _ => .step x) hw

end TreeFeatures
