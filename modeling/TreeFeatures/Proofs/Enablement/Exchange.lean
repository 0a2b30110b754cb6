import Mathlib.Data.Set.Insert
import TreeFeatures.Proofs.Enablement.Forecast

/-!
# Events in any order

Two documents get their filetypes, one after the other. As long as the answers of the surroundings
do not change, it does not matter which of them comes first: not if both filetypes have one language,
not if somebody looks for an installer because of the first event only, and not if both documents are
in the same view.

* `Scene` is what there is to see of a world, without the order in which things came about.
* `Deed` is what is done for a document, and `Scene.after` what it does to a scene.
  `Scene.after_comm`: deeds for different documents commute.
* `deed_stays`: what is done for a document does not depend on what was done for another one.
* `leads_attach_acted`: attaching a document does its deed. `events_exchange`: the result.
-/

namespace TreeFeatures

open Act

variable {σ : Type} {s : Surroundings σ} {K : σ → Prop} {a : Answers}
  {value : σ → Slot → Value} {lit : σ → Handle → Option String} {E : World σ → Prop}

/-! ## Scenes -/

/-- What there is to see of a world: the registry, the active documents, options and highlighting,
and which languages are in flight and who waits for them. -/
structure Scene where
  registry : Registry
  active : Set Handle
  options : Slot → Value
  highlighting : Handle → Option String
  inFlight : Set String
  waiting : String → Set Waiter

/-- What there is to see of a world. -/
def World.scene (value : σ → Slot → Value) (lit : σ → Handle → Option String) (w : World σ) :
    Scene where
  registry := w.state.registry
  active := {d | w.state.features.isActive d = true}
  options := value w.outside
  highlighting := lit w.outside
  inFlight := {l | Assoc.get? w.state.gateway.pending l ≠ none}
  waiting l := {y | y ∈ w.state.waitersOf l}

/-- What is done for a document. -/
inductive Deed where
  | idle
  | start (language : String) (flags : Flags)
  | install (language : String)

namespace Scene

/-- A scene after a document was started with a filetype. -/
def start (a : Answers) (t : Targets) (document : Handle) (filetype language : String) (flags : Flags)
    (S : Scene) : Scene :=
  { S with
    registry := S.registry.set filetype .available
    active := insert document S.active
    options := a.paint t document language flags S.options
    highlighting := a.light document language flags S.highlighting }

/-- A scene after a document had a language installed: it waits if the loop runs, and otherwise no
document waits for the language any more. -/
def install (isRunning : Bool) (language : String) (y : Waiter) (S : Scene) : Scene :=
  if isRunning then
    { S with
      inFlight := insert language S.inFlight
      waiting := fun l => {z | z ∈ S.waiting l ∨ l = language ∧ z = y} }
  else { S with waiting := fun l => {z | z ∈ S.waiting l ∧ l ≠ language} }

/-- A scene after something was done for a document. -/
def after (a : Answers) (t : Targets) (isRunning : Bool) (document : Handle) (filetype : String) :
    Deed → Scene → Scene
  | .idle => id
  | .start language flags => start a t document filetype language flags
  | .install language => install isRunning language ⟨document, filetype⟩

variable {t : Targets} {b : Bool} {d d' : Handle} {f f' l l' : String} {x x' : Flags} {S : Scene}

theorem start_comm (hd : d ≠ d') (hf : f ∈ Assoc.keys S.registry) :
    start a t d' f' l' x' (start a t d f l x S) = start a t d f l x (start a t d' f' l' x' S) := by
  have registry : (S.registry.set f .available).set f' .available =
      (S.registry.set f' .available).set f .available := by
    by_cases e : f = f'
    · rw [e]
    · exact Assoc.put_comm hf e _ _
  unfold start
  simp only [registry, Set.insert_comm d' d, a.paint_commute t l l' x x' hd S.options,
    a.light_commute l l' x x' hd S.highlighting]

theorem install_comm (y y' : Waiter) :
    install b l' y' (install b l y S) = install b l y (install b l' y' S) := by
  unfold install
  cases b with
  | true =>
    simp only [if_true, Set.insert_comm l' l, Set.mem_ofPred_eq, or_right_comm]
  | false =>
    simp only [Bool.false_eq_true, if_false, Set.mem_ofPred_eq, and_right_comm]

theorem start_install_comm (y : Waiter) :
    start a t d f l x (install b l' y S) = install b l' y (start a t d f l x S) := by
  cases b <;> rfl

/-- **Deeds for different documents commute.** -/
theorem after_comm (hd : d ≠ d') {e e' : Deed}
    (hf : ∀ l x, e = .start l x → f ∈ Assoc.keys S.registry) :
    after a t b d' f' e' (after a t b d f e S) = after a t b d f e (after a t b d' f' e' S) := by
  cases e with
  | idle => rfl
  | start l x =>
    cases e' with
    | idle => rfl
    | start l' x' => exact start_comm hd (hf l x rfl)
    | install l' => exact (start_install_comm _).symm
  | install l =>
    cases e' with
    | idle => rfl
    | start l' x' => exact start_install_comm _
    | install l' => exact install_comm _ _

end Scene

/-! ## What is done for a document -/

/-- What is done for a document by a plan. -/
def Enablement.Plan.deed (p : Enablement.Plan) : Deed :=
  match p.decision with
  | .start | .fallBack => .start p.language p.flags
  | .install => .install p.language
  | .leave => .idle

/-- What is done for a document that gets a filetype. -/
def Answers.deed (a : Answers) (present : Bool) (st : State) (filetype : String) : Deed :=
  if st.autoAttach then
    match a.plan present st filetype with
    | some p => p.deed
    | none => .idle
  else .idle

section Deeds

variable {present : Bool} {st st' : State} {f f' l : String} {x : Flags} {p : Enablement.Plan}

theorem Enablement.Plan.Shows.deed (h : p.Shows) : p.deed = .start p.language p.flags := by
  unfold Enablement.Plan.deed
  rcases h with h | h <;> rw [h]

theorem deed_of_plan (hauto : st.autoAttach = true) (hp : p ∈ a.plan present st f) :
    a.deed present st f = p.deed := by
  unfold Answers.deed
  rw [if_pos hauto, Option.mem_def.mp hp]

theorem deed_of_no_plan (hp : a.plan present st f = none) : a.deed present st f = .idle := by
  unfold Answers.deed
  rw [hp, ite_self]

/-- What is started was planned. -/
theorem deed_eq_start (h : a.deed present st f = .start l x) :
    st.autoAttach = true ∧ ∃ p ∈ a.plan present st f, p.Shows ∧ p.language = l ∧ p.flags = x := by
  unfold Answers.deed at h
  split at h
  · next hauto =>
    split at h
    · next p hp =>
      refine ⟨hauto, p, hp, ?_⟩
      unfold Enablement.Plan.deed at h
      unfold Enablement.Plan.Shows
      split at h <;> cases h
      · next hd => exact ⟨.inl hd, rfl, rfl⟩
      · next hd => exact ⟨.inr hd, rfl, rfl⟩
    · cases h
  · cases h

/-- A filetype whose documents are started has an entry. -/
theorem entry_of_start (h : a.deed present st f = .start l x) : f ∈ Assoc.keys st.registry := by
  obtain ⟨-, p, hp, -⟩ := deed_eq_start h
  obtain ⟨known, _, _, hknown, -⟩ := Enablement.mem_plan.mp hp
  exact Assoc.mem_keys_of_get? hknown

/-- The same settings, bundled languages and target values are in force, and documents are attached by
themselves or not. -/
structure SameRules (st st' : State) : Prop where
  settings : st'.settings = st.settings
  bundled : st'.bundled = st.bundled
  autoAttach : st'.autoAttach = st.autoAttach
  targets : st'.features.targets = st.features.targets

theorem deed_congr (h : SameRules st st')
    (hregistry : Assoc.get? st'.registry f = Assoc.get? st.registry f) :
    a.deed present st' f = a.deed present st f := by
  unfold Answers.deed
  rw [h.autoAttach, Enablement.plan_congr hregistry h.settings h.bundled]

/-- **What is done for a document does not depend on what was done for another one**, also if that one
got the same filetype. -/
theorem deed_stays (h : SameRules st st') {t : Targets} {b : Bool} {d : Handle} {S : Scene}
    (hS : S.registry = st.registry)
    (hregistry : st'.registry = (S.after a t b d f (a.deed present st f)).registry) (f' : String) :
    a.deed present st' f' = a.deed present st f' := by
  cases hdeed : a.deed present st f with
  | idle =>
    rw [hdeed] at hregistry
    exact deed_congr h (by rw [hregistry, ← hS]; rfl)
  | install l =>
    rw [hdeed] at hregistry
    refine deed_congr h ?_
    rw [hregistry, ← hS]
    cases b <;> rfl
  | start l x =>
    rw [hdeed] at hregistry
    have set : st'.registry = st.registry.set f .available := by
      rw [hregistry, ← hS]
      rfl
    by_cases e : f = f'
    · -- the plan for the filetype itself is now to start documents because it is available
      subst e
      obtain ⟨hauto, p, hp, hshows, rfl, rfl⟩ := deed_eq_start hdeed
      have available : Assoc.get? st'.registry f = some .available := by
        rw [set]
        exact Assoc.get?_put_self _ _ _
      rw [hdeed, deed_of_plan (h.autoAttach.trans hauto)
        (Enablement.plan_of_available hp hshows available h.settings)]
      rfl
    · refine deed_congr h ?_
      rw [set]
      exact Assoc.get?_put_of_ne _ _ e

end Deeds

/-! ## Installing -/

section Installing

variable (st : State) (l k : String) (y z : Waiter)

/-- Who waits after a document had a language installed. -/
theorem State.mem_waitersOf_install :
    z ∈ (st.install l y).waitersOf k ↔
      if st.loop.isRunning then z ∈ st.waitersOf k ∨ k = l ∧ z = y
      else z ∈ st.waitersOf k ∧ k ≠ l := by
  have accepted : ∀ st' : State,
      (Gateway.accept st' [l] (some .enablement)).waitersOf k = st'.waitersOf k := fun st' => by
    rw [Gateway.accept_eq]
    rfl
  unfold State.install
  split
  · rw [accepted]
    by_cases e : l = k
    · subst e
      rw [Enablement.mem_waitersOf_enqueue, eq_self_iff_true, true_and]
    · rw [Enablement.waitersOf_enqueue_of_ne _ _ e]
      simp [Ne.symm e]
  · by_cases e : l = k
    · subst e
      rw [Enablement.waitersOf_dequeue_self]
      simp
    · rw [Enablement.waitersOf_dequeue_of_ne _ e, Enablement.waitersOf_enqueue_of_ne _ _ e]
      simp [Ne.symm e]

/-- Which languages are in flight after a document had one installed. -/
theorem State.pending_install :
    Assoc.get? (st.install l y).gateway.pending k ≠ none ↔
      (st.loop.isRunning = true ∧ k = l) ∨ Assoc.get? st.gateway.pending k ≠ none := by
  unfold State.install
  split
  · next hr =>
    rw [Gateway.accept_pending]
    have same : (st.enqueue l y).gateway = st.gateway := rfl
    simp only [same, Gateway.mem_fresh, List.mem_singleton]
    by_cases e : k = l
    · subst e
      cases Assoc.get? st.gateway.pending k <;> simp [hr]
    · simp [e]
  · next hr => simp [hr, State.enqueue, State.dequeue]

end Installing

/-- To see, it is what having a language installed does to a scene. -/
theorem scene_install (w : World σ) (l : String) (y : Waiter) :
    World.scene value lit { w with state := w.state.install l y } =
      (w.scene value lit).install w.state.loop.isRunning l y := by
  have pending := w.state.pending_install l (y := y)
  have waiting := fun k z => w.state.mem_waitersOf_install l k y z
  unfold World.scene Scene.install
  simp only [pending, waiting]
  obtain ⟨ws, ps, cs, o, he⟩ := w.state.install_eq l y
  rw [he]
  cases w.state.loop.isRunning <;> simp [Set.insert_def]

/-! ## Attaching -/

namespace Enablement

/-- A document was attached: what was to be done for it can be seen, and what is done for others is
decided as before. -/
structure Acted (s : Surroundings σ) (K : σ → Prop) (a : Answers) (value : σ → Slot → Value)
    (lit : σ → Handle → Option String) (present : Bool) (document : Handle) (filetype : String)
    (e : Deed) (w v : World σ) : Prop where
  steady : K v.outside
  initialized : v.state.initialized = w.state.initialized
  rules : SameRules w.state v.state
  finds : Gateway.Finds s K present v.state.gateway.installer
  scene : v.scene value lit = (w.scene value lit).after a w.state.features.targets
    w.state.loop.isRunning document filetype e

variable {present : Bool} {document : Handle} {filetype : String} {w v : World σ}

theorem Idle.acted (h : Idle s K value lit present w v) :
    Acted s K a value lit present document filetype .idle w v := by
  obtain ⟨i, hi⟩ := h.state
  refine ⟨h.steady, by rw [hi], ⟨?_, ?_, ?_, ?_⟩, h.finds, ?_⟩
  iterate 4 rw [hi]
  unfold World.scene
  rw [hi, h.options, h.highlighting]
  rfl

/-- Having a language installed. -/
theorem Idle.acted_install (h : Idle s K value lit present w v) (l : String) :
    Acted s K a value lit present document filetype (.install l) w
      { v with state := v.state.install l ⟨document, filetype⟩ } := by
  let y : Waiter := ⟨document, filetype⟩
  have before : Acted s K a value lit present document filetype .idle w v := h.acted
  have running : v.state.loop.isRunning = w.state.loop.isRunning := by
    obtain ⟨i, hi⟩ := h.state
    rw [hi]
  obtain ⟨ws, ps, cs, o, he⟩ := v.state.install_eq l y
  refine ⟨before.steady, ?_, ⟨?_, ?_, ?_, ?_⟩, ?_, ?_⟩
  · exact (congrArg State.initialized he).trans before.initialized
  · exact (congrArg State.settings he).trans before.rules.settings
  · exact (congrArg State.bundled he).trans before.rules.bundled
  · exact (congrArg State.autoAttach he).trans before.rules.autoAttach
  · exact (congrArg (fun st => st.features.targets) he).trans before.rules.targets
  · show Gateway.Finds s K present (v.state.install l y).gateway.installer
    rw [he]
    exact before.finds
  · rw [scene_install, before.scene, running]
    rfl

section Attaching

variable (hK : Predictable s K a value lit)

include hK

/-- Starting a document of a filetype. -/
theorem leads_startAvailable_acted (htidy : w.state.features.Tidy) (l : String) (flags : Flags) :
    Leads (Idle s K value lit present w) (startAvailable s document filetype l flags)
      (fun _ => Acted s K a value lit present document filetype (.start l flags) w) E := by
  let f := w.state.features
  let x := value w.outside
  let y := lit w.outside
  have drawn : Leads (Drawn K value lit f.targets x y) (Features.start s document l flags)
      (fun _ => Drawn K value lit f.targets (a.paint f.targets document l flags x)
        (a.light document l flags y)) fun _ => False :=
    Features.leads_start_drawn hK l flags
  have active : Leads (fun v => v.state.features = f) (Features.start s document l flags)
      (fun _ v => ∀ d, v.state.features.isActive d = (decide (document = d) || f.isActive d))
      fun _ => False := by
    refine Features.leads_start_of ⟨fun _ _ h => h, by simp, fun _ _ _ h => h⟩ document
      (fun v hv d => ?_) (fun v table hv d => ?_) l flags
    · simp only [World.onFeatures, Features.activate, Features.isActive_setOverrides, hv]
    · simp only [World.onFeatures, Features.isActive_setOverrides, hv d, ← Bool.or_assoc,
        Bool.or_self]
  have started := drawn.and active
  refine (leads_startAvailable_enabled (C := Gateway.Finds s K present) (w := w)
    (blind_idle hK).log (fun v hv => ?_) (fun v hv => ?_) started
    fun v k hv => ⟨{ hv.1 with }, hv.2⟩).weaken fun _ v hv => ?_
  · obtain ⟨i, hi⟩ := hv.state
    have finds := hv.finds
    rw [hi] at finds
    exact ⟨i, finds, hi⟩
  · obtain ⟨i, hi⟩ := hv.state
    refine ⟨⟨hv.steady, hv.options, hv.highlighting, ?_, ?_⟩, ?_⟩ <;> dsimp only <;> rw [hi]
    exact htidy
  · obtain ⟨-, ⟨hdrawn, hactive⟩, i, g, hi, hst⟩ := hv
    refine ⟨hdrawn.steady, by rw [hst], ⟨?_, ?_, ?_, hdrawn.targets⟩, hst ▸ hi, ?_⟩
    iterate 3 rw [hst]
    have shown : {d | v.state.features.isActive d = true} =
        insert document {d | f.isActive d = true} := by
      ext d
      simp only [Set.mem_insert_iff, Set.mem_ofPred_eq, hactive d, Bool.or_eq_true,
        decide_eq_true_eq, eq_comm (a := document)]
    unfold World.scene
    rw [shown, hdrawn.options, hdrawn.highlighting, hst]
    rfl

/-- **Attaching a document does its deed.** -/
theorem leads_attach_acted (document : Handle) (hw : Ready K w.state filetype w)
    (htidy : w.state.features.Tidy) (hauto : w.state.autoAttach = true) :
    Leads (Idle s K value lit present w) (attach s document filetype)
      (fun _ => Acted s K a value lit present document filetype (a.deed present w.state filetype) w)
      E := by
  refine leads_attach_idle hK hw (fun hnone v hv => ?_) (fun q hq hleave v hv => ?_)
    (fun q hq hshows => ?_) fun q hq hinstall => ?_
  · rw [deed_of_no_plan hnone]
    exact hv.acted
  · have idle : q.deed = .idle := by rw [Plan.deed, hleave]
    rw [deed_of_plan hauto hq, idle]
    exact hv.acted
  · rw [deed_of_plan hauto hq, hshows.deed]
    exact (leads_startAvailable_acted hK htidy q.language q.flags).mono (fun _ hv => hv.toIdle)
      (fun _ _ hv => hv) fun _ hv => hv
  · have install : q.deed = .install q.language := by rw [Plan.deed, hinstall]
    obtain ⟨hflags, rfl, hnamed⟩ := (plan_of_install hq hinstall).2
    rw [deed_of_plan hauto hq, install]
    exact leads_installFor_install hnamed document filetype (fun v k hv => { hv with })
      (fun v hv => (hv.sought q hq hflags).eq_true_iff.mp rfl) fun v hv => hv.acted_install q.language

end Attaching

end Enablement

/-! ## Two events -/

open Enablement (Acted)

/-- A world in which events can be foreseen. -/
structure Foreseeable (s : Surroundings σ) (K : σ → Prop) (present : Bool) (w : World σ) : Prop where
  steady : K w.outside
  initialized : w.state.initialized = true
  sane : Sane w
  finds : Gateway.Finds s K present w.state.gateway.installer

section Events

variable (hK : Predictable s K a value lit) {present : Bool} {w : World σ}

include hK

/-- An event does the deed of the document, and the next one can be foreseen. -/
theorem exec_event_acted (hw : Foreseeable s K present w) (d : Handle) (f : String) (b : Bool)
    {v : World σ} (hv : exec s (.call b (.filetypeEvent (some d) (some f))) w = v) :
    Foreseeable s K present v ∧ SameRules w.state v.state ∧
      v.scene value lit = (w.scene value lit).after a w.state.features.targets b d f
        (a.deed present w.state f) := by
  let u := w.setRunning b
  let event := Controller.filetypeEvent s (some d) (some f)
  have hrun : event.run u = ((event.run u).1, (event.run u).2) := (Prod.eta _).symm
  have acted : Acted s K a value lit present d f (a.deed present w.state f) u (event.run u).2 := by
    have idle : Enablement.Idle s K value lit present u u := .refl hw.steady hw.finds
    have ran : event.run u =
        if w.state.autoAttach then (Enablement.attach s d f).run u else (.ok none, u) :=
      run_filetypeEvent d f u
    by_cases hauto : w.state.autoAttach = true
    · have ready := (sane_setRunning.mpr hw.sane).ready (w := u) hw.steady hw.initialized f
      rw [ran, if_pos hauto]
      exact (Enablement.leads_attach_acted hK d ready hw.sane.tidy hauto).run idle
    · have off : a.deed present w.state f = .idle := if_neg hauto
      rw [ran, if_neg hauto, off]
      exact idle.acted
  obtain rfl := hv.symm.trans (exec_event hrun)
  exact ⟨⟨acted.steady, acted.initialized.trans hw.initialized,
    sane_setRunning.mpr (hw.sane.event hrun), acted.finds⟩, { acted.rules with }, acted.scene⟩

/-- What there is to see after two events. -/
theorem scene_two_events (hw : Foreseeable s K present w) (d d' : Handle) (f f' : String) (b : Bool) :
    (run s [.call b (.filetypeEvent (some d) (some f)),
        .call b (.filetypeEvent (some d') (some f'))] w).scene value lit =
      ((w.scene value lit).after a w.state.features.targets b d f (a.deed present w.state f)).after a
        w.state.features.targets b d' f' (a.deed present w.state f') := by
  obtain ⟨hv, rules, first⟩ := exec_event_acted hK hw d f b rfl
  obtain ⟨-, -, second⟩ := exec_event_acted hK hv d' f' b rfl
  have stays := deed_stays rules (S := w.scene value lit) rfl (congrArg Scene.registry first) f'
  rw [first, rules.targets, stays] at second
  exact second

/-- **The order of events.** A world that a run ended in is set up, and from now on the answers of its
surroundings do not change. Two different documents get their filetypes, with the loop running or not
both times. What there is to see afterwards does not depend on which of them comes first. -/
theorem events_exchange {w₀ : World σ} (hw₀ : Initial w₀) {steps : List (Step σ)}
    (hrun : run s steps w₀ = w) (hsteady : K w.outside) (hinitialized : w.state.initialized = true)
    {d₁ d₂ : Handle} (hd : d₁ ≠ d₂) (f₁ f₂ : String) (b : Bool) :
    let event d f : Step σ := .call b (.filetypeEvent (some d) (some f))
    (run s [event d₁ f₁, event d₂ f₂] w).scene value lit =
      (run s [event d₂ f₂, event d₁ f₁] w).scene value lit := by
  intro event
  obtain ⟨present, finds⟩ := Gateway.exists_finds hK hsteady
  have foreseeable : Foreseeable s K present w :=
    ⟨hsteady, hinitialized, hrun ▸ sane_run hw₀ steps, finds⟩
  rw [scene_two_events hK foreseeable, scene_two_events hK foreseeable]
  exact Scene.after_comm hd fun _ _ h => entry_of_start h

end Events

/-- An editor with an installer that has the grammars of all languages but rust. Its state is the
options and what is highlighted. -/
def rustlessEditor : Surroundings ((Slot → Value) × (Handle → Option String)) where
  reply
    | .addLanguage l, x => (.ok (.bool (l ≠ "rust")), x)
    | .findInstaller, x => (.ok true, x)
    | c, x => Controller.typedEditor.reply c x
  machine := Controller.typedEditor.machine

/-- Nobody has looked for the installer yet. -/
def rustlessWorld : World ((Slot → Value) × (Handle → Option String)) :=
  .fresh (fun _ => .text "user", fun _ => none)
    { settings := some
        { parsers := ["lua", "rust"]
          flags := { highlights := true, folds := true, autoInstall := true } }
      gateway := { installer := .unsought .configured } }

theorem rustlessEditor_predictable :
    Predictable rustlessEditor (fun _ => True)
      ⟨fun c => (rustlessEditor.reply c rustlessWorld.outside).1, fun _ v => .ok v⟩ Prod.fst
      Prod.snd := by
  have same : ∀ c x, (rustlessEditor.reply c x).2 = (Controller.typedEditor.reply c x).2 := by
    intro c x
    cases c <;> rfl
  refine ⟨fun _ _ _ => trivial, fun c hc x _ => ?_, fun _ _ _ => rfl, fun _ _ _ _ => rfl,
    fun c x h => ?_, fun _ _ _ _ => rfl, fun c x h => ?_⟩
  · cases c <;> first | rfl | exact hc.elim
  · rw [same]
    exact typedEditor_predictable.unwritten c x h
  · rw [same]
    exact typedEditor_predictable.unlit c x h

/-- A document of lua is started, and one of rust waits for an install. Whichever comes first, it has
somebody look for the installer; both documents are in the same view. -/
theorem events_exchange_rustless :
    let s := rustlessEditor
    let event (d : Nat) (f : String) : Step ((Slot → Value) × (Handle → Option String)) :=
      .call true (.filetypeEvent (some (.number d)) (some f))
    let w := run s [event 3 "text"] rustlessWorld
    let v := run s [event 1 "lua", event 2 "rust"] w
    w.state.initialized = true ∧ v.state.features.isActive (.number 1) = true ∧
      Assoc.get? v.state.gateway.pending "rust" = some 0 ∧
      v.scene Prod.fst Prod.snd =
        (run s [event 2 "rust", event 1 "lua"] w).scene Prod.fst Prod.snd := by
  intro s event w v
  have initialized : w.state.initialized = true := by decide +kernel
  exact ⟨initialized, by decide +kernel, by decide +kernel,
    events_exchange rustlessEditor_predictable (⟨rfl, rfl⟩ : Initial rustlessWorld)
      (rfl : run s [event 3 "text"] rustlessWorld = w) trivial initialized (by decide) "lua" "rust"
      true⟩

end TreeFeatures
