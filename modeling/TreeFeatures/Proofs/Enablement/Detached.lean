import TreeFeatures.Proofs.Enablement.Grounds
import TreeFeatures.Proofs.Enablement.Reporting

/-!
# After detaching

Detaching ends automatic attaching, and the flag is looked at in two places: when a document gets a
filetype, and when an install is over and documents waited for it. Installs that are in flight go on
and are recorded as before.

* `Unprompted`: the steps by which nobody asks for the features of a document.
* `Quiet`: automatic attaching is off since some world, and no features were shown or hidden on the
  way from it. `blind_quiet` and `leads_tell_quiet` say why jobs keep it, `exec_quiet` that all
  unprompted steps do.
* `completion_detached`: the end of an install (`on_installed`) records the same with automatic
  attaching on or off.
* `detached_quiet`: the result.
* `work_detached`: the same for the job by which a task ends that was in flight when automatic
  attaching was turned off.
-/

namespace TreeFeatures

/-- An operation by which nobody asks for the features of a document. -/
def Operation.Unprompted : Operation → Prop
  | filetypeEvent _ _ | setup _ | adopt _ | installAll | request _ _ => True
  | attach _ _ | start _ _ _ | stop _ | toggle | detach => False

/-- A step by which nobody asks for the features of a document. -/
def Step.Unprompted {σ : Type} : Step σ → Prop
  | call _ o => o.Unprompted
  | work _ | answer _ | cancel _ | wait _ | meanwhile _ => True

namespace Enablement

open Act Install

variable {σ : Type} {s : Surroundings σ} {u w : World σ} {E : World σ → Prop}

/-- Automatic attaching is off, and on the way from a world no features were shown or hidden: their
state is the same, and the editor was asked nothing about features or options. -/
structure Quiet (u v : World σ) : Prop where
  detached : v.state.autoAttach = false
  features : v.state.features = u.state.features
  silent : ∃ es, v.trace = es ++ u.trace ∧
    ∀ c, .asked c ∈ es → c.area ≠ .features ∧ c.area ≠ .options

namespace Quiet

theorem start (h : u.state.autoAttach = false) : Quiet u u := ⟨h, rfl, [], rfl, by simp⟩

/-- Something happens that concerns neither features nor options. -/
theorem cons {v v' : World σ} (h : Quiet u v) (hstate : v'.state = v.state) {e : Event}
    (htrace : v'.trace = e :: v.trace)
    (he : ∀ c, e = .asked c → c.area ≠ .features ∧ c.area ≠ .options) : Quiet u v' := by
  obtain ⟨es, hes, hsilent⟩ := h.silent
  refine ⟨hstate ▸ h.detached, hstate ▸ h.features, e :: es, ?_, fun c hc => ?_⟩
  · rw [htrace, hes]
    rfl
  · rcases List.mem_cons.mp hc with hce | hc
    · exact he c hce.symm
    · exact hsilent c hc

theorem news_silent {v : World σ} (h : Quiet u v) (c : Call) (hc : .asked c ∈ news u v) :
    c.area ≠ .features ∧ c.area ≠ .options := by
  obtain ⟨es, hes, hsilent⟩ := h.silent
  rw [news_of_trace hes] at hc
  exact hsilent c hc

end Quiet

theorem blind_quiet {parts : List Part} {areas : List Area} (hauto : Part.autoAttach ∉ parts)
    (hfeatures : Part.features ∉ parts) (hcalls : Area.features ∉ areas)
    (hoptions : Area.options ∉ areas) : Blind s parts areas (Quiet u) where
  log _ _ h := ⟨h.detached, h.features, h.silent⟩
  write p hp v st hst h := by
    cases hst with
    | autoAttach => exact absurd hp hauto
    | features => exact absurd hp hfeatures
    | _ => exact ⟨h.detached, h.features, h.silent⟩
  ask c hc v h := by
    refine h.cons rfl rfl ?_
    rintro c' ⟨⟩
    exact ⟨fun e => hcalls (e ▸ hc), fun e => hoptions (e ▸ hc)⟩

/-- While automatic attaching is off, no document that waited is started. -/
theorem leads_startWaiters_detached (l : String) (waiters : List Waiter) :
    Leads (Quiet u) (startWaiters s l waiters) (fun _ => Quiet u) E := by
  refine leads_state_eq.bind fun st => ?_
  split
  · next hauto =>
    refine Leads.mono (P := fun _ => False) (fun _ h => h.elim) (fun v hv => ?_) (fun _ _ h => h)
      fun _ h => h
    rw [hv.1, hv.2.detached] at hauto
    cases hauto
  · exact leads_note fun v hv => ⟨hv.2.detached, hv.2.features, hv.2.silent⟩

/-- The end of an install is quiet. -/
theorem leads_tell_quiet (l : String) (success : Bool) :
    Leads (Quiet u) (tell s l success .enablement) (fun _ => Quiet u) E := by
  refine (leads_emit (Q := Quiet u) fun v hv => hv.cons rfl rfl nofun).bind fun _ =>
    Leads.shielded (fun v hv => ?_) fun v log hv => ⟨hv.detached, hv.features, hv.silent⟩
  have blind : Blind s [.registry] [.editor] (Quiet u) :=
    blind_quiet (by simp) (by simp) (by simp) (by simp)
  refine leads_installed (P := Quiet u) (Q := Quiet u) blind
    ⟨hv.detached, hv.features, hv.silent⟩ (fun _ => ?_) (fun _ _ _ h => h) v rfl
  exact (leads_startWaiters_detached l _).mono (fun _ h => h.2) (fun _ _ h => h) fun _ h => h

theorem quiet_withstands (l : String) (success : Bool) : Withstands s l success (Quiet u) where
  blind := blind_quiet (by simp) (by simp) (by simp) (by simp)
  forget _ h := ⟨h.detached, h.features, h.silent⟩
  outside _ _ h := h.cons rfl rfl nofun
  requested _ _ _ h := h.cons rfl rfl nofun
  dispatch r _ := Gateway.keeps_dispatch (blind_quiet (by simp) (by simp) (by simp) (by simp))
    r.languages r.callback
  enablement _ := leads_tell_quiet l success

/-- While automatic attaching is off, unprompted operations are quiet. -/
theorem perform_quiet {o : Operation} (ho : o.Unprompted) : Keeps (Quiet u) (perform s o) := by
  have blind : Blind s [.settings, .registry, .bundled, .initialized, .installer, .pending,
      .callbacks, .tasks, .queue] [.editor, .discovery] (Quiet u) :=
    blind_quiet (by simp) (by simp) (by simp) (by simp)
  have requested : ∀ languages callback,
      Keeps (Quiet u) (Gateway.dispatch s languages callback) :=
    Gateway.keeps_dispatch (blind.mono (by simp) (by simp))
  cases o with
  | filetypeEvent document filetype =>
    -- the first look at the flag
    intro v hv
    have ignored : (perform s (.filetypeEvent document filetype)).run v = (.ok (), v) := by
      simp only [perform, Controller.filetypeEvent, bind_assoc]
      rw [run_bind_of_ok _ (run_state v), hv.detached]
      rfl
    rw [ignored]
    exact hv
  | setup x => exact keeps_setup (blind.mono (by simp) (by simp)) x
  | adopt x => exact keeps_setSettings (blind.mono (by simp) (by simp)) x
  | installAll =>
    intro v hv
    exact (leads_installAll (keeps_prepare (blind.mono (by simp) (by simp)))
      (keeps_settings (blind.mono (by simp) (by simp)))
      (fun languages _ => requested languages _) hv).run rfl
  | request languages callback => exact (requested languages callback).bind fun _ => keeps_pure
  | _ => exact ho.elim

/-- While automatic attaching is off, unprompted steps are quiet. -/
theorem exec_quiet {x : Step σ} (hx : x.Unprompted) {v : World σ} (hv : Quiet u v) :
    Quiet u (exec s x v) := by
  have running : ∀ (v : World σ) b, Quiet u v → Quiet u (v.setRunning b) :=
    fun _ _ h => ⟨h.detached, h.features, h.silent⟩
  cases x with
  | call b o => exact exec_call_of running (perform_quiet hx _ (running v b hv))
  | work j =>
    have worked : Leads (Quiet u) (work s j) (fun _ => Quiet u) (Quiet u) :=
      leads_work_quiet (blind_quiet (by simp) (by simp) (by simp) (by simp)) quiet_withstands j
    exact exec_work_of running hv (worked.run ⟨hv.detached, hv.features, hv.silent⟩)
  | _ => exact ⟨hv.detached, hv.features, hv.silent⟩

/-- Detaching ends automatic attaching, even if the current document cannot be stopped. -/
theorem autoAttach_detach (b : Bool) (w : World σ) :
    (exec s (.call b .detach) w).state.autoAttach = false := by
  have blind : Blind s showParts [.features, .options, .editor]
      fun v => v.state.autoAttach = false := by
    refine Blind.of_state (J := fun st => st.autoAttach = false) fun p hp st st' hst h => ?_
    cases hst with
    | autoAttach => simp at hp
    | _ => exact h
  refine exec_call_of (I := fun v => v.state.autoAttach = false) (fun _ _ h => h) ?_
  exact keeps_stop blind none _ rfl

/-- A world with automatic attaching on or off. -/
def attaching (w : World σ) (isOn : Bool) : World σ :=
  { w with state := { w.state with autoAttach := isOn } }

/-- The end of an install makes the same of every entry whether automatic attaching is on or off,
and afterwards no document waits for the language. -/
theorem completion_detached (s : Surroundings σ) (l : String) (success : Bool) (w : World σ)
    (isOn : Bool) :
    (∀ ft, Assoc.get? ((installed s l success).run w).2.state.registry ft =
      Assoc.get? ((installed s l success).run (attaching w isOn)).2.state.registry ft) ∧
    ((installed s l success).run w).2.state.waitersOf l = [] := by
  refine ⟨fun ft => ?_, ?_⟩
  · -- what the install is about and whether the grammar is found do not depend on the flag
    rw [installed_settled s l success w ft, installed_settled s l success (attaching w isOn) ft]
    rfl
  · unfold State.waitersOf
    rw [installed_takes]
    rfl

/-- **After detaching nothing is shown.** In a run that follows a call to detach, from any world,
and in which nobody asks for the features of a document, automatic attaching stays off, the features
of all documents stay as they are, and the editor is asked nothing about features and options: no
highlighting is started, no option is written, and no document becomes active. But the end of an
install, in any world, makes the same of every entry of the registry as it would with automatic
attaching on, and afterwards no document waits for the language. -/
theorem detached_quiet (s : Surroundings σ) (w : World σ) (b : Bool) {steps : List (Step σ)}
    (hsteps : ∀ x ∈ steps, x.Unprompted) {u v : World σ} (hu : exec s (.call b .detach) w = u)
    (hv : run s steps u = v) :
    v.state.autoAttach = false ∧
    v.state.features = u.state.features ∧
    (∀ c, .asked c ∈ news u v → c.area ≠ .features ∧ c.area ≠ .options) ∧
    ∀ l success (z : World σ),
      (∀ ft, Assoc.get? ((installed s l success).run z).2.state.registry ft =
        Assoc.get? ((installed s l success).run (attaching z true)).2.state.registry ft) ∧
      ((installed s l success).run z).2.state.waitersOf l = [] := by
  have quiet : Quiet u v := by
    rw [← hv]
    refine run_induction (I := Quiet u) (fun x hx z => exec_quiet (hsteps x hx)) (.start ?_)
    rw [← hu]
    exact autoAttach_detach b w
  exact ⟨quiet.detached, quiet.features, quiet.news_silent,
    fun l success z => completion_detached s l success z true⟩

theorem aligned_attaching {τ : Type} (face : σ → τ) (w : World σ) (isOn : Bool) :
    Aligned face w (attaching w isOn) := ⟨rfl, rfl, fun _ => rfl, rfl⟩

/-- **The job that ends an install after detaching.** A job is done in a world that is reached by a
run without cancelled tasks and in which automatic attaching is off. It changes nothing about the
features of documents and asks nothing about features and options. After it every entry of the
registry is what it would be with automatic attaching on, and the same documents wait, as long as
what the editor says about grammars does not change with the features that are shown and no listener
makes a request. And if a task that was in flight is over after the job, then no document waits for a
language of the task. -/
theorem work_detached {τ : Type} {face : σ → τ} (hs : Steadfast s face) (hr : ∀ r, ¬ Reacts s r)
    {w₀ : World σ} (hw₀ : Initial w₀) {steps : List (Step σ)} (hc : NoCancel steps)
    (hrun : run s steps w₀ = w) (hauto : w.state.autoAttach = false) {j : Job} {v v' : World σ}
    (hv : exec s (.work j) w = v) (hv' : exec s (.work j) (attaching w true) = v') :
    v.state.features = w.state.features ∧
    (∀ c, .asked c ∈ news w v → c.area ≠ .features ∧ c.area ≠ .options) ∧
    (∀ ft, Assoc.get? v.state.registry ft = Assoc.get? v'.state.registry ft) ∧
    (∀ l, v.state.waitersOf l = v'.state.waitersOf l) ∧
    ∀ id t u, InFlight w.state id t → HasTask id u v → u.phase.isOver = true →
      ∀ l ∈ t.languages, v.state.waitersOf l = [] := by
  subst hv hv'
  have unprompted : (.work j : Step σ).Unprompted := trivial
  have quiet : Quiet w (exec s (.work j) w) := exec_quiet unprompted (.start hauto)
  have even := exec_work_even hs hr j (aligned_attaching face w true)
  refine ⟨quiet.features, quiet.news_silent, even.entry, even.waitersOf, ?_⟩
  intro id t u ht hu ho l hl
  obtain ⟨sound, sheltered⟩ := run_sheltered (l := l) (s := s) hw₀ hc
  rw [hrun] at sound sheltered
  exact exec_work_served sound sheltered ht hl hu ho

/-- A document waits for lua, and the installer is at work. -/
def installing : List (Step Script.Stage) :=
  [.call true (.attach (some (.number 1)) (some "lua")), .work (.task 0)]

/-- The call of the installer ends well. -/
def endsWell (st : Script.Stage) : Script.Stage :=
  { st with installer := st.installer.finish 0 (.value (.bool true) true) }

/-- Another document gets its filetype, all languages are requested, and the install ends well. -/
def finishing : List (Step Script.Stage) :=
  [.call true (.filetypeEvent (some (.number 2)) (some "lua")), .call true .installAll,
    .meanwhile endsWell, .answer 0, .work (.task 0)]

/-- Lua becomes available after detaching, and no document shows features. -/
theorem detached_quiet_finishing :
    let s := Script.Stage.surroundings
    let w := run s installing luaWorld
    let u := exec s (.call true .detach) w
    let v := run s finishing u
    w.state.waitersOf "lua" = [⟨.number 1, "lua"⟩] ∧ (∀ x ∈ finishing, x.Unprompted) ∧
      Assoc.get? v.state.registry "lua" = some .available ∧ v.state.waitersOf "lua" = [] ∧
      v.state.features.documents = [] := by
  intro s w u v
  have unprompted : ∀ x ∈ finishing, x.Unprompted := by
    simp [finishing, Step.Unprompted, Operation.Unprompted]
  have hidden : u.state.features.documents = [] := by decide +kernel
  obtain ⟨-, hfeatures, -⟩ := detached_quiet s w true unprompted (u := u) rfl (v := v) rfl
  refine ⟨by decide +kernel, unprompted, by decide +kernel, by decide +kernel, ?_⟩
  rw [hfeatures, hidden]

/-- The editor of `slowEditor`, with an installer that reports success in the end. -/
def sureEditor : Surroundings (List String) where
  reply
    | .collect _, x => (.ok (.bool true), x)
    | c, x => slowEditor.reply c x
  machine := slowEditor.machine

/-- What `sureEditor` says about grammars is not changed by showing features. -/
theorem steadfast_sureEditor : Steadfast sureEditor id where
  addLanguage l x y h := by rw [show x = y from h]
  filetypes l x y _ := rfl
  stays c _ x := by cases c <;> rfl

/-- Detaching comes after lua turned up and before the installer answers: the job that ends the
install makes lua available and takes the document off the list, but only with automatic attaching on
would it start the document. -/
theorem work_detached_sure :
    let steps : List (Step (List String)) :=
      [.call true (.attach (some (.number 1)) (some "lua")), .work (.task 0),
        .meanwhile fun _ => ["lua"], .call true .detach, .answer 0]
    let w := run sureEditor steps slowWorld
    let v := exec sureEditor (.work (.task 0)) w
    let v' := exec sureEditor (.work (.task 0)) (attaching w true)
    w.state.waitersOf "lua" = [⟨.number 1, "lua"⟩] ∧
      Assoc.get? v.state.registry "lua" = some .available ∧
      Assoc.get? v'.state.registry "lua" = some .available ∧ v.state.waitersOf "lua" = [] ∧
      v.state.features.isActive (.number 1) = false ∧
      v'.state.features.isActive (.number 1) = true := by
  intro steps w v v'
  have unheard : ∀ r, ¬ Reacts sureEditor r := by
    rintro r ⟨name, language, success, o, reaction, h, -⟩
    cases h
  have initial : Initial slowWorld := ⟨rfl, rfl⟩
  have uncancelled : NoCancel steps := fun id => by simp [steps]
  have off : w.state.autoAttach = false := by decide +kernel
  have hidden : w.state.features.isActive (.number 1) = false := by decide +kernel
  have available : Assoc.get? v'.state.registry "lua" = some .available := by decide +kernel
  have flying : InFlight w.state 0 { languages := ["lua"], phase := .awaiting 0 true } :=
    ⟨by decide +kernel, rfl⟩
  have ended : v.state.loop.tasks[0]? = some { languages := ["lua"], phase := .finished true } := by
    decide +kernel
  have attached : exec sureEditor (.work (.task 0)) (attaching w true) = v' := rfl
  obtain ⟨features, -, entries, -, served⟩ := work_detached steadfast_sureEditor unheard initial
    uncancelled rfl off (j := .task 0) (v := v) rfl attached
  refine ⟨by decide +kernel, (entries "lua").trans available, available,
    served 0 _ _ flying ended rfl "lua" (by simp), ?_, by decide +kernel⟩
  rw [features]
  exact hidden

end Enablement

end TreeFeatures
