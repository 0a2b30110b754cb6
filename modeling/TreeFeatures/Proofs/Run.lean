import TreeFeatures.Proofs.Install.Advance

/-!
# Runs of the program

`Step` is one thing that can happen to the program: somebody calls an operation, with the loop
running or not; a job of the queue is done, whichever of them; a ticket is answered; a task is
asked to stop; somebody begins to wait; the surroundings change by themselves. `run` lets steps
happen one after the other, in any order.

* `perform_eq`: attaching a document is aiming, which changes nothing that documents or installs
  depend on, and then following the aim.
* `perform_keeps_by`, `perform_keeps`: the rules for an operation; `exec_call` and `exec_work` say
  what a call and a job are.
* `settle_eq_run`: running the loop is a run whose steps are jobs.
-/

namespace TreeFeatures

open Act

/-- What an editor or user has the program do. -/
inductive Operation where
  | attach (document : Option Handle) (filetype : Option String)
  | filetypeEvent (document : Option Handle) (filetype : Option String)
  | start (document : Option Handle) (language : Option String) (flags : Option Flags)
  | stop (document : Option Handle)
  | toggle
  /-- Hand over settings that are still to be read. -/
  | setup (v : Value)
  /-- Hand over settings. -/
  | adopt (settings : Settings)
  | detach
  | installAll
  /-- Request installs without the controller. -/
  | request (languages : List String) (callback : Option Callback)

variable {σ : Type} (s : Surroundings σ)

/-- Perform an operation. -/
def perform : Operation → Act σ Unit
  | .attach document filetype => do let _ ← Controller.attach s document filetype
  | .filetypeEvent document filetype => do let _ ← Controller.filetypeEvent s document filetype
  | .start document language flags => Controller.start s document language flags
  | .stop document => Controller.stop s document
  | .toggle => do let _ ← Controller.toggle s
  | .setup v => Controller.setup s v
  | .adopt settings => Enablement.setSettings settings
  | .detach => Controller.detach s
  | .installAll => do let _ ← Controller.installAll s
  | .request languages callback => do let _ ← Gateway.dispatch s languages callback

/-- Have the loop run or not. -/
def World.setRunning (w : World σ) (isRunning : Bool) : World σ :=
  { w with state := { w.state with loop := { w.state.loop with isRunning := isRunning } } }

/-- Something that can happen to the program. -/
inductive Step (σ : Type) where
  /-- Somebody calls an operation, with the loop running or not. -/
  | call (isRunning : Bool) (o : Operation)
  /-- A job of the queue is done. -/
  | work (j : Job)
  | answer (ticket : Nat)
  | cancel (task : TaskId)
  | wait (language : Option String)
  /-- The surroundings change by themselves. -/
  | meanwhile (f : σ → σ)

/-- The world after a step. -/
def exec : Step σ → World σ → World σ
  | .call isRunning o, w => ((Install.withLoop isRunning (perform s o)).run w).2
  | .work j, w =>
    if j ∈ w.state.loop.queue then
      ((Install.withLoop true (Install.work s j)).run
        (w.onLoop fun l => { l with queue := l.queue.erase j })).2
    else w
  | .answer ticket, w => w.onLoop fun l => l.answer ticket
  | .cancel task, w => w.onLoop fun l => (l.cancel task).1
  | .wait language, w => w.onLoop fun l => l.beginWait language
  | .meanwhile f, w => { w with outside := f w.outside }

/-- The world after several steps. -/
def run (steps : List (Step σ)) (w : World σ) : World σ := steps.foldl (fun w x => exec s x w) w

/-- A world in which the program has done nothing yet. -/
structure Initial (w : World σ) : Prop where
  state : w.state =
    { settings := w.state.settings
      features := { targets := w.state.features.targets }
      gateway := { installer := w.state.gateway.installer }
      loop := { isRunning := w.state.loop.isRunning } }
  trace : w.trace = []

/-- No step asks a task to stop. -/
def NoCancel (steps : List (Step σ)) : Prop := ∀ id, Step.cancel id ∉ steps

variable {s}

theorem run_cons (x : Step σ) (steps : List (Step σ)) (w : World σ) :
    run s (x :: steps) w = run s steps (exec s x w) := rfl

theorem run_append (steps more : List (Step σ)) (w : World σ) :
    run s (steps ++ more) w = run s more (run s steps w) := List.foldl_append

/-- What every step keeps, a run keeps. -/
theorem run_induction {I : World σ → Prop} {steps : List (Step σ)}
    (h : ∀ x ∈ steps, ∀ w, I w → I (exec s x w)) {w : World σ} (hw : I w) : I (run s steps w) := by
  induction steps generalizing w with
  | nil => exact hw
  | cons x rest ih =>
    exact ih (fun y hy => h y (List.mem_cons_of_mem x hy)) (h x List.mem_cons_self w hw)

theorem NoCancel.append {steps more : List (Step σ)} :
    NoCancel (steps ++ more) ↔ NoCancel steps ∧ NoCancel more := by
  unfold NoCancel
  simp only [List.mem_append, not_or]
  exact ⟨fun h => ⟨fun id => (h id).1, fun id => (h id).2⟩, fun h id => ⟨h.1 id, h.2 id⟩⟩

/-- A step at some point of a continued run. -/
theorem NoCancel.step {m more : List (Step σ)} {y : Step σ} (hc : NoCancel more)
    (hm : m ++ [y] <+: more) : NoCancel m ∧ ∀ i, y ≠ .cancel i := by
  have hmem : ∀ z ∈ m ++ [y], z ∈ more := fun z hz => hm.subset hz
  exact ⟨fun i hi => hc i (hmem _ (by simp [hi])), fun i e => hc i (hmem _ (by simp [e]))⟩

/-! ## Attaching -/

/-- What attaching a document aims at: the document, its filetype, and what is to be done. -/
abbrev Aim := Handle × String × Enablement.Plan

/-- What a call to attach a document aims at. -/
def aimAt (s : Surroundings σ) (document : Option Handle) (filetype : Option String) :
    Act σ (Option Aim) := do
  let d ← Controller.subject s document filetype
  let p ← Enablement.plan s d.2
  pure (p.map fun p => (d.1, d.2, p))

/-- What an operation aims at, if it attaches a document. -/
def aim (s : Surroundings σ) : Operation → Act σ (Option Aim)
  | .attach document filetype => aimAt s document filetype
  | .filetypeEvent document filetype => do
    if (← state).autoAttach then aimAt s document filetype else pure none
  | _ => pure none

/-- Follow an aim. -/
def follow (s : Surroundings σ) : Option Aim → Act σ Unit
  | none => pure ()
  | some (document, filetype, p) => do
    let _ ← Enablement.carryOut s document filetype (some p)

/-- Whether an operation may attach a document. -/
def Operation.Attaches : Operation → Prop
  | attach _ _ | filetypeEvent _ _ => True
  | _ => False

theorem attach_eq_follow (document : Option Handle) (filetype : Option String) :
    (Controller.attach s document filetype >>= fun _ => pure ()) =
      aimAt s document filetype >>= follow s := by
  simp only [Controller.attach, aimAt, Enablement.attach, bind_assoc, pure_bind]
  refine congrArg _ (funext fun d => congrArg _ (funext fun p => ?_))
  cases p <;> rfl

/-- Attaching is aiming and following. -/
theorem perform_eq {o : Operation} (h : o.Attaches) : perform s o = aim s o >>= follow s := by
  cases o with
  | attach document filetype => exact attach_eq_follow document filetype
  | filetypeEvent document filetype =>
    simp only [perform, Controller.filetypeEvent, aim, bind_assoc]
    refine congrArg _ (funext fun st => ?_)
    split
    · exact attach_eq_follow document filetype
    · rfl
  | _ => exact h.elim

variable {I P E : World σ → Prop}

theorem keeps_subject (h : Blind s [] [.editor] I) (document : Option Handle)
    (filetype : Option String) : Keeps I (Controller.subject s document filetype) := by
  refine Keeps.bind ?_ fun d => Keeps.bind ?_ fun _ => keeps_pure
  · cases document with
    | none => exact h.keeps_ask (by simp [Call.area])
    | some d => exact keeps_pure
  · cases filetype with
    | none => exact h.keeps_ask (by simp [Call.area])
    | some ft => exact keeps_pure

/-- Aiming touches what planning touches. -/
theorem keeps_aim (h : Blind s Enablement.planParts [.editor, .discovery] I) (o : Operation) :
    Keeps I (aim s o) := by
  have at_ : ∀ d ft, Keeps I (aimAt s d ft) := fun d ft =>
    (keeps_subject (h.mono (by simp) (by simp)) d ft).bind fun d =>
      (Enablement.keeps_plan h d.2).bind fun _ => keeps_pure
  cases o with
  | attach d ft => exact at_ d ft
  | filetypeEvent d ft => exact keeps_state.bind fun st => Keeps.ite (at_ d ft) keeps_pure
  | _ => exact keeps_pure

/-! ## Operations -/

/-- What operations may touch, requests for installs aside. -/
abbrev quietParts : List Part :=
  [.settings, .registry, .bundled, .initialized, .autoAttach, .features, .installer]

/-- The languages that an operation requests of the gateway by itself, called in a world. -/
def Operation.Asks (s : Surroundings σ) (w : World σ) : Operation → List String → Prop
  | .attach _ _, languages | .filetypeEvent _ _, languages => ∃ l, languages = [l]
  | .installAll, languages =>
    ∃ x, ((Enablement.settings s).run ((Enablement.prepare s).run w).2).1 = .ok x ∧
      languages = x.parsers
  | .request wanted _, languages => languages = wanted
  | _, _ => False

/-- What starting and stopping documents may touch, setting up aside. -/
abbrev showParts : List Part := [.settings, .features]

theorem keeps_start (h : Blind s showParts [.features, .options, .editor] I)
    (hprepare : Keeps I (Enablement.prepare s)) (document : Option Handle)
    (language : Option String) (flags : Option Flags) :
    Keeps I (Controller.start s document language flags) := by
  refine hprepare.bind fun _ => ?_
  refine (keeps_subject (h.mono (by simp) (by simp)) document language).bind fun d => ?_
  have started : ∀ flags, Keeps I (Features.start s d.1 d.2 flags) := fun flags =>
    Features.keeps_start (h.mono (by simp) (by simp)) _ _ _
  cases flags with
  | some flags => exact keeps_pure.bind started
  | none => exact (Enablement.keeps_resolve (h.mono (by simp) (by simp)) _).bind started

theorem keeps_stop (h : Blind s showParts [.features, .options, .editor] I)
    (document : Option Handle) : Keeps I (Controller.stop s document) := by
  have stopped : ∀ d, Keeps I (Features.stop s d) := fun d =>
    Features.keeps_stop (h.mono (by simp) (by simp)) d
  cases document with
  | none => exact Keeps.bind (h.keeps_ask (by simp [Call.area])) stopped
  | some d => exact keeps_pure.bind stopped

theorem keeps_toggle (h : Blind s showParts [.features, .options, .editor] I)
    (hprepare : Keeps I (Enablement.prepare s)) : Keeps I (Controller.toggle s) := by
  refine Keeps.bind ?_ fun outcome => ?_
  · refine Keeps.bind ?_ fun active => ?_
    · exact Keeps.bind (h.keeps_ask (by simp [Call.area])) fun d =>
        keeps_state.bind fun st => keeps_pure
    · cases active with
      | true => exact (keeps_stop h none).bind fun _ => keeps_pure
      | false => exact (keeps_start h hprepare none none none).bind fun _ => keeps_pure
  · exact Keeps.bind (h.keeps_ask (by simp [Call.area])) fun _ => keeps_pure

theorem keeps_setup (h : Blind s [.settings] [] I) (v : Value) :
    Keeps I (Controller.setup s v) := by
  refine keeps_machine.bind fun m => ?_
  split
  · exact keeps_fail
  · exact h.keeps_note
  · exact Enablement.keeps_setSettings h _

/-- Following an aim touches the registry and the features, installs aside. -/
theorem leads_follow (h : Blind s [.registry, .features] [.features, .options] I)
    (hP : ∀ w, P w → I w) (a : Option Aim) (hinstall : ∀ b ∈ a, b.2.2.decision = .install →
      Leads P (Enablement.installFor s b.1 b.2.1 b.2.2.language) (fun _ => I) I) :
    Leads P (follow s a) (fun _ => I) I := by
  cases a with
  | none => exact leads_pure hP
  | some a =>
    refine (Enablement.leads_carryOut h hP a.1 a.2.1 (some a.2.2) fun q hq hd => ?_).bind fun _ =>
      leads_pure fun _ => id
    obtain rfl := Option.some.inj hq
    exact hinstall a rfl hd

/-- Installing all managed languages sets up and then requests them. -/
theorem leads_installAll {w : World σ} (hprepare : Keeps I (Enablement.prepare s))
    (hsettings : Keeps I (Enablement.settings s))
    (hdispatch : ∀ languages, Operation.installAll.Asks s w languages →
      Keeps I (Gateway.dispatch s languages (some .enablement))) (hw : I w) :
    Leads (fun v => v = w) (perform s .installAll) (fun _ => I) I := by
  refine Leads.bind (Q := fun _ => I) ?_ fun _ => leads_pure fun _ => id
  refine (hprepare.leads_run hw).bind fun b v₁ h₁ => ?_
  refine ((hsettings.leads_run h₁.1).bind fun x => ?_) v₁ rfl
  intro v₂ h₂
  have asks : Operation.installAll.Asks s w x.parsers := ⟨x, by rw [h₁.2, h₂.2], rfl⟩
  exact (hdispatch x.parsers asks).leads v₂ h₂.1

/-- An operation keeps what setting up, attaching documents and requests for installs keep, if the
rest of it does not matter. -/
theorem perform_keeps_by {o : Operation} {w : World σ}
    (h : Blind s (.autoAttach :: showParts) [.features, .options, .editor] I)
    (hprepare : Keeps I (Enablement.prepare s))
    (hattach : o.Attaches → ∀ document filetype, Keeps I (Enablement.attach s document filetype))
    (hrequest : ¬ o.Attaches → ∀ languages callback, o.Asks s w languages →
      Keeps I (Gateway.dispatch s languages callback)) (hw : I w) : I ((perform s o).run w).2 := by
  have hs : Blind s showParts [.features, .options, .editor] I := h.mono (by simp) (by simp)
  have attached : o.Attaches → ∀ document filetype,
      Keeps I (Controller.attach s document filetype >>= fun _ => pure ()) := by
    intro ho document filetype
    refine Keeps.bind ?_ fun _ => keeps_pure
    exact (keeps_subject (h.mono (by simp) (by simp)) document filetype).bind fun d =>
      hattach ho d.1 d.2
  cases o with
  | attach d ft => exact attached trivial d ft w hw
  | filetypeEvent d ft =>
    have event : Keeps I (perform s (.filetypeEvent d ft)) := by
      simp only [perform, Controller.filetypeEvent, bind_assoc]
      refine keeps_state.bind fun st => ?_
      split
      · exact attached trivial d ft
      · exact keeps_pure.bind fun _ => keeps_pure
    exact event w hw
  | start d l f => exact keeps_start hs hprepare d l f w hw
  | stop d => exact keeps_stop hs d w hw
  | toggle => exact ((keeps_toggle hs hprepare).bind fun _ => keeps_pure) w hw
  | setup v => exact keeps_setup (h.mono (by simp) (by simp)) v w hw
  | adopt x => exact Enablement.keeps_setSettings (h.mono (by simp) (by simp)) x w hw
  | detach =>
    exact ((h.keeps_update .autoAttach (by simp) fun st => .autoAttach st _).bind fun _ =>
      keeps_stop hs none) w hw
  | installAll =>
    exact (leads_installAll hprepare (Enablement.keeps_settings (h.mono (by simp) (by simp)))
      (fun languages => hrequest id languages (some .enablement)) hw).run rfl
  | request languages callback =>
    exact ((hrequest id languages callback rfl).bind fun _ => keeps_pure) w hw

/-- An operation keeps what is blind to it, if requests for installs keep it. -/
theorem perform_keeps {o : Operation} {w : World σ}
    (h : Blind s quietParts [.features, .options, .editor, .discovery] I)
    (hinstall : o.Attaches → ∀ document filetype language, language ≠ "" →
      Leads (fun w => I w ∧ w.state.gateway.installer = .present)
        (Enablement.installFor s document filetype language) (fun _ => I) I)
    (hrequest : ∀ languages callback, o.Asks s w languages →
      Keeps I (Gateway.dispatch s languages callback)) (hw : I w) : I ((perform s o).run w).2 := by
  refine perform_keeps_by (h.mono (by simp) (by simp))
    (Enablement.keeps_prepare (h.mono (by simp) (by simp))) (fun ho document filetype => ?_)
    (fun _ => hrequest) hw
  refine Leads.keeps (Leads.bind (Enablement.leads_plan (h.mono (by simp) (by simp)) filetype)
    fun p => ?_)
  refine (Enablement.leads_carryOut (h.mono (by simp) (by simp)) (fun w hw => hw.1) document
    filetype p fun q hq hd => ?_).weaken fun _ _ h => h
  intro v hv
  obtain ⟨hp, hl⟩ := hv.2 q hq hd
  exact hinstall ho document filetype q.language hl v ⟨hv.1, hp⟩

/-- The same for a property that the documents that wait do not matter to. -/
theorem perform_keeps_of_dispatch {o : Operation} {w : World σ}
    (h : Blind s (.waiters :: quietParts) [.features, .options, .editor, .discovery] I)
    (hrequest : ∀ languages callback, o.Asks s w languages →
      Keeps I (Gateway.dispatch s languages callback)) (hw : I w) : I ((perform s o).run w).2 := by
  refine perform_keeps (h.mono (by simp) (by simp)) (fun ho document filetype language _ => ?_)
    hrequest hw
  have asks : o.Asks s w [language] := by
    cases o with
    | attach _ _ => exact ⟨language, rfl⟩
    | filetypeEvent _ _ => exact ⟨language, rfl⟩
    | _ => exact ho.elim
  have installed : Keeps I (Enablement.installFor s document filetype language) :=
    Enablement.keeps_installFor (h.mono (by simp) (by simp)) (hrequest [language] _ asks) document
      filetype
  exact installed.leads.mono (fun w h => h.1) (fun _ _ h => h) fun _ h => h

/-! ## Whether the loop runs -/

theorem blind_running {parts : List Part} {areas : List Area} {b : Bool}
    (h : Part.isRunning ∉ parts) : Blind s parts areas fun w => w.state.loop.isRunning = b := by
  refine Blind.of_state (J := fun st => st.loop.isRunning = b) fun p hp st st' hst hb => ?_
  cases hst with
  | isRunning => exact absurd hp h
  | _ => exact hb

theorem running_dispatch {b : Bool} (languages : List String) (callback : Option Callback) :
    Keeps (fun w => w.state.loop.isRunning = b) (Gateway.dispatch s languages callback) := by
  refine Gateway.keeps_dispatch_of (blind_running (by simp)) fun w h _ => ?_
  simp only [Gateway.accept_eq]
  split <;> exact h

/-! ## Steps -/

theorem run_withLoop {α : Type} (b : Bool) (a : Act σ α) (w : World σ) :
    ((Install.withLoop b a).run w).2 =
      ((a.run (w.setRunning b)).2).setRunning w.state.loop.isRunning := by
  unfold Install.withLoop Install.updateLoop
  rw [run_bind_of_ok _ (run_state w)]
  dsimp only
  rw [run_bind_of_ok _ (run_update _ w), run_bind_of_ok _ (run_attempt a _),
    run_bind_of_ok _ (run_update _ _)]
  split <;> rfl

theorem exec_call (b : Bool) (o : Operation) (w : World σ) :
    exec s (.call b o) w =
      (((perform s o).run (w.setRunning b)).2).setRunning w.state.loop.isRunning :=
  run_withLoop b (perform s o) w

/-- The world in which a job of the queue is done. -/
def World.atWork (w : World σ) (j : Job) : World σ :=
  (w.onLoop fun l => { l with queue := l.queue.erase j }).setRunning true

theorem exec_work {j : Job} {w : World σ} (h : j ∈ w.state.loop.queue) :
    exec s (.work j) w =
      (((Install.work s j).run (w.atWork j)).2).setRunning w.state.loop.isRunning := by
  rw [exec, if_pos h, run_withLoop]
  rfl

theorem exec_work_of_not_mem {j : Job} {w : World σ} (h : j ∉ w.state.loop.queue) :
    exec s (.work j) w = w := if_neg h

/-- A world with a property that does not depend on whether the loop runs has it after a call, if
the operation keeps it. -/
theorem exec_call_of {b : Bool} {o : Operation} {w : World σ}
    (hr : ∀ v b, I v → I (v.setRunning b)) (h : I ((perform s o).run (w.setRunning b)).2) :
    I (exec s (.call b o) w) := by
  rw [exec_call]
  exact hr _ _ h

/-- The same for a job. -/
theorem exec_work_of {j : Job} {w : World σ} (hr : ∀ v b, I v → I (v.setRunning b)) (hidle : I w)
    (h : I ((Install.work s j).run (w.atWork j)).2) : I (exec s (.work j) w) := by
  by_cases hj : j ∈ w.state.loop.queue
  · rw [exec_work hj]
    exact hr _ _ h
  · rwa [exec_work_of_not_mem hj]

/-! ## Running the loop -/

namespace Install

/-- A job does not fail, and does not start or stop the loop. -/
theorem leads_work_running (j : Job) (b : Bool) :
    Leads (fun w => w.state.loop.isRunning = b) (work s j) (fun _ w => w.state.loop.isRunning = b)
      fun _ => False := by
  have unheard : ∀ l, Unheard s l fun w => w.state.loop.isRunning = b := fun l =>
    ⟨blind_running (by simp), fun _ h => h, fun _ h => h, fun _ _ _ h => h, fun _ _ _ h => h,
      fun r _ => running_dispatch r.languages r.callback⟩
  exact leads_work_quiet (blind_running (by simp)) (fun l => (unheard l).withstands) j

/-- Doing jobs while the loop runs is a run whose steps are these jobs. -/
theorem workOff_eq_run (bound : Nat) (v : World σ) (hv : v.state.loop.isRunning = true) (b : Bool) :
    ∃ jobs : List Job, ((workOff s bound).run v).2.setRunning b =
      TreeFeatures.run s (jobs.map .work) (v.setRunning b) := by
  induction bound generalizing v with
  | zero => exact ⟨[], rfl⟩
  | succ n ih =>
    cases hq : v.state.loop.queue with
    | nil =>
      have : (workOff s (n + 1)).run v = (.ok (), v) := by
        rw [workOff, run_bind_of_ok _ (run_state v)]
        simp only [Loop.next?, hq]
        rfl
      rw [this]
      exact ⟨[], rfl⟩
    | cons j rest =>
      obtain ⟨x, hx, hrunning⟩ := (leads_work_running (s := s) j true).exists_ok
        (w := v.onLoop fun l => { l with queue := rest }) hv
      obtain ⟨jobs, hjobs⟩ := ih _ hrunning
      refine ⟨j :: jobs, ?_⟩
      have hstep : exec s (.work j) (v.setRunning b) =
          ((work s j).run (v.onLoop fun l => { l with queue := rest })).2.setRunning b := by
        have hj : j ∈ (v.setRunning b).state.loop.queue := by simp [World.setRunning, hq]
        have hat : (v.setRunning b).atWork j = v.onLoop fun l => { l with queue := rest } := by
          simp [World.atWork, World.setRunning, World.onLoop, hq, ← hv]
        rw [exec_work hj, hat]
        rfl
      rw [List.map_cons, run_cons, hstep, ← hjobs, workOff, run_bind_of_ok _ (run_state v)]
      simp only [Loop.next?, hq]
      have hwork : (work s j).run (v.onLoop fun l => { l with queue := rest }) =
          (.ok x, ((work s j).run (v.onLoop fun l => { l with queue := rest })).2) :=
        Prod.ext hx rfl
      exact congrArg (fun r => World.setRunning (Prod.snd r) b) (run_bind_of_ok (fun _ => _) hwork)

/-- **Running the loop is a run.** Its steps are jobs, done in the order of the queue. -/
theorem settle_eq_run (bound : Nat) (w : World σ) :
    ∃ jobs : List Job, ((settle s bound).run w).2 = TreeFeatures.run s (jobs.map .work) w := by
  obtain ⟨jobs, h⟩ := workOff_eq_run (s := s) bound (w.setRunning true) rfl
    w.state.loop.isRunning
  exact ⟨jobs, (run_withLoop true (workOff s bound) w).trans h⟩

end Install

end TreeFeatures
