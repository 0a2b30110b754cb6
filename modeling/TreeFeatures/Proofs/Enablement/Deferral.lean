import TreeFeatures.Proofs.Enablement.Bundled
import TreeFeatures.Proofs.Enablement.Canvas
import TreeFeatures.Proofs.Enablement.Detached

/-!
# Installed before or installed later

A document is attached whose language has to be installed first. It waits, and it is started when
the install is over, by other code than if the grammar had been there. What is shown in the end is
the same in both cases, as long as documents are attached by themselves; after detaching, a document
that waited is not started.

* `Deferred` and `Provided`: the grammar is missing and can be installed, or it is registered.
* `leads_planManaged_exact`: what is decided. `leads_attach_provided`: with the grammar, the document
  is started.
* `Waits`: the document waits for the install. `leads_attach_deferred`: without the grammar it does.
* `leads_conclude_alone`: the end of the install shows what is `destined`.
* `exec_waits`: in a step in which only the task of the install goes on, the document goes on waiting
  or the install is `Concluded`. `run_waits`: the same for runs.
* `deferred_alike`: the result. `deferred_differs`: it is another one after detaching, or if another
  document still waits for the language.
-/

namespace TreeFeatures

open Act Install

namespace Enablement

variable {σ τ : Type} {s : Surroundings σ} {face : σ → τ} {document : Handle}
  {filetype l : String} {x : Settings} {u b w : World σ} {E : World σ → Prop}

/-! ## With and without the grammar -/

/-- The grammar of a language is missing and can be installed for a document that is attached;
nothing is known about its filetype, the language is not being installed, and no document waits for
it. The program is set up. -/
structure Deferred (s : Surroundings σ) (face : σ → τ) (document : Handle) (filetype l : String)
    (u : World σ) : Prop where
  entry : Assoc.get? u.state.registry filetype = some .unknown
  named : l ≠ ""
  language : (s.reply (.languageOf filetype) u.outside).1 = .ok (some l)
  unbundled : l ∉ u.state.bundled
  missing : accepts s l u.outside = false
  allowed : ∀ x, u.state.settings = some x → (x.resolve (some l)).autoInstall = true
  installer : ((Gateway.isPresent s).run (afterCall s (.languageOf filetype) u)).1 = .ok true
  idle : Assoc.get? u.state.gateway.pending l = none
  alone : u.state.waitersOf l = []
  /-- The editor keeps the document, as long as it shows the same. -/
  valid : ∀ o, face o = face u.outside → accepts s l o = true →
    (s.reply (.isValid document) o).1 = .ok true

/-- A world is like another one, but for the grammar of a language, which is registered. -/
structure Provided (s : Surroundings σ) (face : σ → τ) (filetype l : String) (u b : World σ) :
    Prop where
  state : b.state = u.state
  face : face b.outside = face u.outside
  registered : accepts s l b.outside = true
  language : (s.reply (.languageOf filetype) b.outside).1 = .ok (some l)

/-- What is decided for a filetype about which nothing is known, if its language is not bundled. -/
theorem leads_planManaged_exact (h : Canvas s face l document) (hx : w.state.settings = some x)
    (hl : l ∉ w.state.bundled) :
    Leads (fun v => v = w) (planManaged s l .unknown)
      (fun p v => (Searched w.state v ∧ Echoes s face l v w) ∧
        ∃ use, ((mayInstall s (x.resolve (some l))).run w).1 = .ok use ∧
          (use = true → v.state.gateway.installer = .present) ∧
          p = ⟨l, x.resolve (some l), .unknown,
            Decision.of .unknown (accepts s l w.outside) false use⟩) E := by
  let Looks (v : World σ) : Prop := Searched w.state v ∧ Echoes s face l v w
  have blind : Blind s [.installer] [.discovery, .editor] Looks :=
    blind_searched.and (blind_echoes h (by simp) (by simp) (by simp) (by simp))
  have start : Looks w := ⟨⟨w.state.gateway.installer, rfl⟩, rfl, rfl, rfl⟩
  refine Leads.bind (Q := fun flags v => flags = x.resolve (some l) ∧ v = w) ?_ fun flags =>
    Leads.assume fun hflags => ?_
  · rintro v rfl
    rw [run_resolve hx]
    exact ⟨rfl, rfl⟩
  subst hflags
  have found : Leads (fun v => v = w) (mayInstall s (x.resolve (some l)))
      (fun use v => Looks v ∧ ((mayInstall s (x.resolve (some l))).run w).1 = .ok use ∧
        (use = true → v.state.gateway.installer = .present)) E := by
    rintro v rfl
    have present := leads_mayInstall (E := fun _ => False) (blind.mono (by simp) (by simp))
      (x.resolve (some l)) v start
    rcases hrun : (mayInstall s (x.resolve (some l))).run v with ⟨f | use, v'⟩
    · rw [hrun] at present
      exact present.elim
    · rw [hrun] at present
      exact ⟨present.1, rfl, fun huse => (present.2.mp huse).2⟩
  refine found.bind fun use => Leads.bind leads_state_eq fun st => ?_
  rintro v ⟨rfl, looks, hrun, hpresent⟩
  have bundled : v.state.bundled.contains l = false := by
    obtain ⟨⟨i, hi⟩, -⟩ := looks
    rw [hi]
    simpa using hl
  refine Leads.bind (P := fun v' => v' = v) (Q := fun ready v' => (Looks v' ∧
    v'.state = v.state) ∧ ready = accepts s l w.outside) ?_ (fun ready => leads_pure ?_) v rfl
  · have blind' : Blind s [] [.editor] Looks := blind.mono (by simp) (by simp)
    refine ((leads_grammarReady_exact v).and_keeps (keeps_grammarReady blind' l)).mono
      (fun _ hv => ⟨hv, hv ▸ looks⟩) (fun ready v' hv' => ⟨⟨hv'.2, hv'.1.2.1⟩, ?_⟩) fun _ h => h
    exact hv'.1.1.trans looks.2.registered
  · rintro v' ⟨⟨looks', hstate⟩, rfl⟩
    rw [bundled]
    exact ⟨looks', use, hrun, fun huse => hstate ▸ hpresent huse, rfl⟩

/-- With the grammar, the document is started. -/
theorem leads_attach_provided (h : Canvas s face l document) (hx : w.state.settings = some x)
    (hl : l ∉ w.state.bundled) (hw : Echoes s face l w b) (hb : accepts s l b.outside = true) :
    Leads (fun v => v = w) (attachManaged s document filetype l .unknown)
      (fun _ => Shown s face l filetype
        ((Features.start s document l (x.resolve (some l))).run b).2) E := by
  refine (leads_planManaged_exact h hx hl).bind fun p => ?_
  rintro v ⟨⟨-, looks⟩, use, -, -, rfl⟩
  have looks' : Echoes s face l v b :=
    ⟨looks.features.trans hw.features, looks.face.trans hw.face,
      looks.registered.trans hw.registered⟩
  rw [hw.registered, hb]
  refine leads_startAvailable_alike (P := fun v => Echoes s face l v b) (twins_shown h)
    (fun v log hv => { hv with }) (fun v hv => ⟨?_, ?_⟩) l _ v looks'
  · exact { hv with }
  · exact Assoc.get?_put_self _ _ _

/-! ## Waiting for the install -/

/-- What the install of a document that waits needs of a world: the document is the only one that
waits, its filetype is managed, and apart from that all is as in a world with the grammar. -/
structure Awaits (face : σ → τ) (document : Handle) (filetype l : String) (x : Settings)
    (b v : World σ) : Prop where
  settings : v.state.settings = some x
  autoAttach : v.state.autoAttach = b.state.autoAttach
  features : v.state.features = b.state.features
  managed : Assoc.has v.state.registry filetype = true
  waiters : v.state.waitersOf l = [⟨document, filetype⟩]
  face : face v.outside = face b.outside

theorem blind_awaits (h : Canvas s face l document) {parts : List Part} {areas : List Area}
    (hparts : ∀ p ∈ parts, p ≠ .settings ∧ p ≠ .autoAttach ∧ p ≠ .features ∧ p ≠ .registry ∧
      p ≠ .waiters)
    (hfeatures : Area.features ∉ areas) (hoptions : Area.options ∉ areas) :
    Blind s parts areas (Awaits face document filetype l x b) where
  log _ _ hv := { hv with }
  write p hp v st hst hv := by
    obtain ⟨h₁, h₂, h₃, h₄, h₅⟩ := hparts p hp
    cases hst with
    | settings => exact absurd rfl h₁
    | autoAttach => exact absurd rfl h₂
    | features => exact absurd rfl h₃
    | registry => exact absurd rfl h₄
    | waiters => exact absurd rfl h₅
    | _ => exact { hv with }
  ask c hc v hv :=
    have same := h.other c (fun e => hfeatures (e ▸ hc)) (fun e => hoptions (e ▸ hc)) v.outside
    { hv with face := same.trans hv.face }

/-- The enablement is to hear about the end of the install of a language, once. -/
def Hears (l : String) (v : World σ) : Prop :=
  .enablement ∈ v.state.gateway.listeners l ∧ (v.state.gateway.listeners l).Nodup

theorem blind_hears {parts : List Part} {areas : List Area} (hp : Part.callbacks ∉ parts) :
    Blind s parts areas (Hears (σ := σ) l) := by
  refine Blind.of_state (J := fun st => .enablement ∈ st.gateway.listeners l ∧
    (st.gateway.listeners l).Nodup) fun p hpp st st' hst hst' => ?_
  cases hst with
  | callbacks => exact absurd hpp hp
  | _ => exact hst'

/-- The document waits, the enablement is to hear about the end of the install, and a task that
installs the language alone is not over. -/
structure Waits (face : σ → τ) (document : Handle) (filetype l : String) (x : Settings)
    (id : TaskId) (b v : World σ) : Prop where
  awaits : Awaits face document filetype l x b v
  hears : Hears l v
  installs : ∃ t, HasTask id t v ∧ t.languages = [l] ∧ t.cancelRequested = false ∧
    t.phase.isOver = false

/-- A document that has a language installed which nobody installs and for which nobody waits. -/
theorem accept_alone {st : State} (hidle : Assoc.get? st.gateway.pending l = none)
    (halone : st.waitersOf l = []) (y : Waiter) :
    let st' := Gateway.accept (st.enqueue l y) [l] (some .enablement)
    st'.waitersOf l = [y] ∧ .enablement ∈ st'.gateway.listeners l ∧
      st'.loop.tasks[st.loop.tasks.length]? = some { languages := [l] } := by
  intro st'
  have fresh : (st.enqueue l y).gateway.fresh [l] = [l] := by
    rw [Gateway.fresh_singleton]
    exact if_pos hidle
  refine ⟨?_, ?_, ?_⟩
  · have waiters : st'.waitersOf l = (st.enqueue l y).waitersOf l := by
      simp only [st', Gateway.accept_eq]
      rfl
    rw [waiters]
    unfold State.enqueue
    rw [halone]
    unfold State.waitersOf
    rw [Assoc.get?_put_self]
    rfl
  · simp only [st']
    rw [Gateway.accept_listeners]
    exact Gateway.mem_listenAll _ .enablement [l] List.mem_cons_self
  · simp only [st']
    rw [Gateway.accept_tasks, fresh, if_neg (List.cons_ne_nil _ _)]
    exact List.getElem?_concat_length

/-- Without the grammar, the document waits for an install. -/
theorem leads_attach_deferred (h : Canvas s face l document)
    (hw : Deferred s face document filetype l u) (hx : u.state.settings = some x)
    (hrunning : u.state.loop.isRunning = true) (hb : Provided s face filetype l u b)
    (hneat : Neat u.state) :
    Leads (fun v => v = afterCall s (.languageOf filetype) u)
      (attachManaged s document filetype l .unknown)
      (fun _ => Waits face document filetype l x u.state.loop.tasks.length b) E := by
  let u' := afterCall s (.languageOf filetype) u
  have missing : accepts s l u'.outside = false :=
    (h.registered (.languageOf filetype) (by simp [Call.area]) _).trans hw.missing
  have same : face u'.outside = face u.outside :=
    h.other (.languageOf filetype) (by simp [Call.area]) (by simp [Call.area]) _
  refine (leads_planManaged_exact (w := u') h hx hw.unbundled).bind fun p => ?_
  rintro v ⟨⟨searched, looks⟩, use, hrun, hpresent, rfl⟩
  -- there is an installer, so an install is decided on
  have present : use = true := by
    have may : mayInstall s (x.resolve (some l)) = Gateway.isPresent s := if_pos (hw.allowed x hx)
    rw [may, hw.installer] at hrun
    exact (Except.ok.inj hrun).symm
  subst present
  have decided : Decision.of .unknown (accepts s l u'.outside) false true = .install := by
    rw [missing]
    rfl
  simp only [carryOut]
  rw [decided]
  refine (Leads.bind (leads_installFor_present (P := fun v => Searched u.state v ∧
    face v.outside = face u.outside) hw.named document filetype ?_ ?_ ?_)
    fun _ => leads_pure fun _ hv => hv) v ⟨⟨searched, looks.face.trans same⟩, hpresent rfl⟩
  · exact fun v log hv => { hv with awaits := { hv.awaits with } }
  · rintro ⟨st, o, tr, log⟩ ⟨⟨i, rfl⟩, hface⟩ -
    let st := { u.state with gateway := { u.state.gateway with installer := i } }
    have idle : Assoc.get? st.gateway.pending l = none := hw.idle
    obtain ⟨waiters, hears, task⟩ := accept_alone idle hw.alone ⟨document, filetype⟩
    have neat : Neat st := ⟨hneat.waiting, hneat.heard⟩
    have fields := Gateway.accept_eq (st.enqueue l ⟨document, filetype⟩) [l] (some .enablement)
    refine ⟨⟨?_, ?_, ?_, ?_, waiters, hface.trans hb.face.symm⟩,
      ⟨hears, ((neat.enqueue l _).accept _ _).heard l⟩, _, task, rfl, rfl, rfl⟩
    · exact (congrArg State.settings fields).trans hx
    · exact (congrArg State.autoAttach fields).trans (congrArg State.autoAttach hb.state).symm
    · exact (congrArg State.features fields).trans (congrArg State.features hb.state).symm
    · show Assoc.has (State.registry _) filetype = true
      rw [congrArg State.registry fields]
      exact Option.isSome_of_eq_some hw.entry
  · rintro v ⟨⟨i, hi⟩, -⟩ hr
    rw [hi] at hr
    cases hr.symm.trans hrunning

/-! ## The end of the install -/

/-- What is shown after the install: what starting the document shows, if documents are attached by
themselves, and otherwise what was shown before. -/
def destined (s : Surroundings σ) (document : Handle) (l : String) (x : Settings) (b : World σ) :
    World σ :=
  if b.state.autoAttach then ((Features.start s document l (x.resolve (some l))).run b).2 else b

/-- Nobody who is told about the end of the install makes false what blind properties say. -/
theorem outside_blind {I : World σ → Prop} {success : Bool} (hI : Blind s Gateway.requestParts
    [.discovery, .listener] I) (htrace : ∀ w e, I w → I { w with trace := e :: w.trace })
    (name : String) : Leads I (tell s l success (.outside name)) (fun _ => I) E :=
  leads_tell_outside (hI.mono (by simp) (by simp)) (fun name w => htrace w _)
    (fun name task w => htrace w _)
    (fun r _ => Gateway.keeps_dispatch (hI.mono (by simp) (by simp)) r.languages r.callback) name

/-- Telling everybody about the end of the install tells the enablement once. -/
theorem leads_announce_once {P Q : World σ → Prop} {success : Bool}
    (hforget : ∀ w, P w →
      P { w with state := { w.state with gateway := w.state.gateway.forget l } })
    (hP : ∀ name, Leads P (tell s l success (.outside name)) (fun _ => P) E)
    (hQ : ∀ name, Leads Q (tell s l success (.outside name)) (fun _ => Q) E)
    (htold : Leads P (tell s l success .enablement) (fun _ => Q) E) :
    Leads (fun w => P w ∧ Hears l w) (announce s success l) (fun _ => Q) E := by
  -- the enablement is among those who are still to be told, or was told already
  let Due (rest : List Callback) (w : World σ) : Prop :=
    rest.Nodup ∧ (.enablement ∈ rest ∧ P w ∨ .enablement ∉ rest ∧ Q w)
  have one : ∀ c rest, Leads (Due (c :: rest)) (tell s l success c) (fun _ => Due rest) E := by
    rintro c rest w ⟨hnodup, hw⟩
    obtain ⟨hc, hrest⟩ := List.nodup_cons.mp hnodup
    cases c with
    | enablement =>
      have due : P w := hw.elim (fun hw => hw.2) fun hw => absurd List.mem_cons_self hw.1
      exact (htold.weaken fun _ v hv => ⟨hrest, .inr ⟨hc, hv⟩⟩) w due
    | outside name =>
      rcases hw with ⟨hmem, hw⟩ | ⟨hmem, hw⟩
      · have hmem' : Callback.enablement ∈ rest := by simpa using hmem
        exact ((hP name).weaken fun _ v hv => ⟨hrest, .inl ⟨hmem', hv⟩⟩) w hw
      · have hmem' : Callback.enablement ∉ rest := by simpa using hmem
        exact ((hQ name).weaken fun _ v hv => ⟨hrest, .inr ⟨hmem', hv⟩⟩) w hw
  intro w hw
  rw [announce, run_bind_of_ok _ (run_state w)]
  refine ((leads_update (P := fun v => v = w) (Q := Due (w.state.gateway.listeners l)) ?_).bind
    fun _ => (Leads.forM one).weaken fun _ v hv => ?_) w rfl
  · rintro v rfl
    exact ⟨hw.2.2, .inl ⟨hw.2.1, hforget v hw.1⟩⟩
  · exact hv.2.elim (fun hv => absurd hv.1 List.not_mem_nil) fun hv => hv.2

variable (h : Canvas s face l document) (hb : accepts s l b.outside = true)
  (hvalid : ∀ o, face o = face b.outside → accepts s l o = true →
    (s.reply (.isValid document) o).1 = .ok true)

include h hb hvalid

/-- The document is started while documents are attached by themselves. -/
theorem leads_startWaiters_alone :
    Leads (fun v => (v.state.settings = some x ∧ v.state.autoAttach = b.state.autoAttach) ∧
        Shown s face l filetype b v)
      (startWaiters s l [⟨document, filetype⟩])
      (fun _ => Shown s face l filetype (destined s document l x b)) E := by
  have log : ∀ (u v : World σ) k, Shown s face l filetype u v →
      Shown s face l filetype u { v with log := k } :=
    fun _ _ _ hv => ⟨{ hv.1 with }, hv.2⟩
  let goal := ((Features.start s document l (x.resolve (some l))).run b).2
  have kept : Leads (Shown s face l filetype b) (ask s (.isValid document))
      (fun (valid : Bool) v => valid = true ∧ Shown s face l filetype b v)
      (Shown s face l filetype goal) := by
    have blind : Blind s [] [.editor] (Shown s face l filetype b) :=
      blind_shown h (by simp) (by simp) (by simp) (by simp) (by simp)
    exact leads_ask_of_reply
      (fun v hv => hvalid v.outside hv.1.face (hv.1.registered.trans hb)) fun v hv =>
        blind.ask _ (by simp [Call.area]) v hv
  have started : Leads (Shown s face l filetype b)
      (startWaiter s l (x.resolve (some l)) ⟨document, filetype⟩)
      (fun _ => Shown s face l filetype goal) E := by
    refine Leads.shielded (kept.bind fun valid => Leads.assume fun e => ?_) (log goal)
    subst e
    exact Features.leads_start_alike (twins_shown h) b l _
  unfold startWaiters destined
  refine leads_state_eq.bind fun st => ?_
  rintro v ⟨rfl, ⟨hsettings, hauto⟩, hshown⟩
  rw [hauto]
  by_cases hon : b.state.autoAttach = true
  · rw [if_pos hon, if_pos hon, run_bind_of_ok _ (run_resolve hsettings (some l))]
    have all : Leads (Shown s face l filetype b)
        ([⟨document, filetype⟩].forM (startWaiter s l (x.resolve (some l))))
        (fun _ => Shown s face l filetype goal) E := started.bind fun _ => leads_pure fun _ hv => hv
    exact all v hshown
  · rw [if_neg hon, if_neg hon]
    exact log b v _ hshown

/-- The end of the install makes the filetype available, and starts the document while documents are
attached by themselves. -/
theorem leads_installed_alone :
    Leads (fun v => Awaits face document filetype l x b v ∧ accepts s l v.outside = true)
      (installed s l true) (fun _ => Shown s face l filetype (destined s document l x b)) E := by
  intro v hv
  obtain ⟨awaits, registered⟩ := hv
  let Ready (v : World σ) : Prop :=
    (v.state.settings = some x ∧ v.state.autoAttach = b.state.autoAttach) ∧ Echoes s face l v b
  have known : Blind s [.registry] [.editor]
      fun v => v.state.settings = some x ∧ v.state.autoAttach = b.state.autoAttach := by
    refine Blind.of_state (J := fun st => st.settings = some x ∧
      st.autoAttach = b.state.autoAttach) fun p hp st st' hst hst' => ?_
    cases hst with
    | registry => exact hst'
    | _ => simp at hp
  have blind : Blind s [.registry] [.editor] Ready :=
    known.and (blind_echoes h (by simp) (by simp) (by simp) (by simp))
  have usable : findsUsable s l true v = true := by
    have ready : registers s l v = true := registered
    simp [findsUsable, ready]
  refine leads_installed (l := l) (w := v) blind ?_ (fun _ => ?_) (fun hn => ?_) v rfl
  · exact ⟨⟨awaits.settings, awaits.autoAttach⟩, awaits.features, awaits.face,
      registered.trans hb.symm⟩
  · rw [awaits.waiters]
    refine (leads_startWaiters_alone h hb hvalid).mono (fun u hu => ?_) (fun _ _ hu => hu)
      fun _ hu => hu
    refine ⟨hu.2.1, hu.2.2, ?_⟩
    have concerns : filetype ∈ concerned s l true v := by
      refine List.mem_append_left _ ?_
      rw [awaits.waiters]
      exact List.mem_cons_self
    obtain ⟨a, ha⟩ := Option.isSome_iff_exists.mp awaits.managed
    rw [hu.1 filetype, if_pos concerns, ha, usable]
    cases a <;> rfl
  · rw [usable] at hn
    cases hn

/-- Telling everybody about the end of the install shows what is to be shown, if the grammar is
registered. -/
theorem leads_announce_alone :
    Leads (fun v => (Awaits face document filetype l x b v ∧ accepts s l v.outside = true) ∧
        Hears l v)
      (announce s true l) (fun _ => Shown s face l filetype (destined s document l x b)) E := by
  have awaiting : Blind s Gateway.requestParts [.discovery, .listener]
      (Awaits face document filetype l x b) :=
    blind_awaits h (by simp) (by simp) (by simp)
  refine leads_announce_once (fun v hv => ⟨?_, hv.2⟩)
    (outside_blind (awaiting.and (h.blind_registered (by simp) true)) fun v e hv => ⟨?_, hv.2⟩)
    (outside_blind (blind_shown h (by simp) (by simp) (by simp) (by simp) (by simp))
      fun v e hv => ?_) ?_
  · exact { hv.1 with }
  · exact { hv.1 with }
  · exact ⟨{ hv.1 with }, hv.2⟩
  · refine (leads_emit fun v hv => ?_).bind fun _ =>
      (leads_installed_alone h hb hvalid).shielded fun v k hv => ?_
    · exact ⟨{ hv.1 with }, hv.2⟩
    · exact ⟨{ hv.1 with }, hv.2⟩

/-- The install is over: if it succeeded and the grammar is registered, then what is to be shown
is. -/
def Concluded (s : Surroundings σ) (face : σ → τ) (document : Handle) (filetype l : String)
    (x : Settings) (id : TaskId) (b v : World σ) : Prop :=
  ∃ t success, HasTask id t v ∧ t.phase = .finished success ∧
    (success = true → accepts s l v.outside = true →
      Shown s face l filetype (destined s document l x b) v)

/-- With the answer of the installer, the install is over. -/
theorem leads_conclude_alone {id : TaskId} {t : Task} {a : Bool} (answer : Except Fault Value) :
    Leads (fun v => (Awaits face document filetype l x b v ∧ Hears l v) ∧ HasTask id t v ∧
        accepts s l v.outside = a)
      (conclude s id [l] answer) (fun _ => Concluded s face document filetype l x id b) E := by
  let Ready (v : World σ) : Prop := (Awaits face document filetype l x b v ∧ Hears l v) ∧
    HasTask id t v ∧ accepts s l v.outside = a
  have kept : ∀ success, Leads (fun v => HasTask id t v ∧ accepts s l v.outside = a)
      ([l].forM (announce s success)) (fun _ v => HasTask id t v ∧ accepts s l v.outside = a) E :=
    fun success => (leads_announceAll fun l' _ => (hasTask_unheard l').withstands success).and
      (leads_announceAll fun l' _ => (h.unheard a l').withstands success)
  let Told (success : Bool) (v : World σ) : Prop :=
    (HasTask id t v ∧ accepts s l v.outside = a) ∧
      (success = true ∧ a = true → Shown s face l filetype (destined s document l x b) v)
  refine leads_conclude (Q := Ready) (T := Told) ?_ (fun v hv => ?_) (fun success => ?_)
    fun success v hv => ?_
  · exact ((blind_awaits h (by simp) (by simp) (by simp)).and (blind_hears (by simp))).and
      ((blind_hasTask (by simp)).and (h.blind_registered (by simp) a))
  · exact ⟨⟨{ hv.1.1 with }, hv.1.2⟩, hv.2⟩
  · by_cases hgood : success = true ∧ a = true
    · obtain ⟨rfl, rfl⟩ := hgood
      have shown : Leads (fun v => (Awaits face document filetype l x b v ∧
          accepts s l v.outside = true) ∧ Hears l v) ([l].forM (announce s true))
          (fun _ => Shown s face l filetype (destined s document l x b)) E :=
        (leads_announce_alone h hb hvalid).bind fun _ => leads_pure fun _ hv => hv
      exact ((kept true).and shown).mono
        (fun v hv => ⟨hv.2, ⟨hv.1.1, hv.2.2⟩, hv.1.2⟩) (fun _ v hv => ⟨hv.1, fun _ => hv.2⟩)
        fun _ hv => hv
    · exact (kept success).mono (fun v hv => hv.2) (fun _ v hv => ⟨hv, fun hn => absurd hn hgood⟩)
        fun _ hv => hv
  · refine ⟨_, success, hv.1.1.finish id (.finished success), ?_, fun hs ha => ?_⟩
    · rw [if_pos rfl]
    · have shown := hv.2 ⟨hs, hv.1.2.symm.trans ha⟩
      exact ⟨{ shown.1 with }, shown.2⟩

/-- While the document waits, its task goes on or the install is concluded. -/
theorem leads_advance_waits (id : TaskId) :
    Leads (Waits face document filetype l x id b) (advance s id)
      (fun _ v => Waits face document filetype l x id b v ∨
        Concluded s face document filetype l x id b v) E := by
  intro w hw
  obtain ⟨t, ht, hlanguages, huncancelled, hflight⟩ := hw.installs
  let Has (v : World σ) : Prop :=
    (Awaits face document filetype l x b v ∧ Hears l v) ∧ HasTask id t v
  have called : Blind s [] [.installer] Has :=
    ((blind_awaits h (by simp) (by simp) (by simp)).and (blind_hears (by simp))).and
      (blind_hasTask (by simp))
  have later : ∀ ticket v, Has v → Waits face document filetype l x id b
      (v.onLoop fun l => l.setPhase id (.awaiting ticket false)) := by
    intro ticket v hv
    refine ⟨{ hv.1.1 with }, hv.1.2, { t with phase := .awaiting ticket false }, ?_, hlanguages,
      huncancelled, rfl⟩
    have set := Loop.setPhase_task v.state.loop id id (.awaiting ticket false)
    rw [if_pos rfl, hv.2] at set
    exact set
  have concluded : ∀ answer, Leads Has (conclude s id t.languages answer)
      (fun _ v => Waits face document filetype l x id b v ∨
        Concluded s face document filetype l x id b v) E := by
    intro answer v hv
    rw [hlanguages]
    exact ((leads_conclude_alone h hb hvalid (a := accepts s l v.outside) answer).weaken
      fun _ _ hv => .inr hv) v ⟨hv.1, hv.2, rfl⟩
  exact leads_advance (C := Has) (fun v hv => hv.2)
    (fun _ v hv => called.ask _ (by simp [Call.area]) v hv)
    (fun _ ticket v hv => .inl (later ticket v hv))
    (fun _ _ v hv => called.ask _ (by simp [Call.area]) v hv) concluded
    (fun hc => absurd (huncancelled.symm.trans hc) nofun)
    (fun _ _ v hv => .inl ⟨hv.1.1, hv.1.2, t, hv.2, hlanguages, huncancelled, hflight⟩) w
    ⟨⟨hw.awaits, hw.hears⟩, ht⟩

omit h hb hvalid

/-! ## Steps -/

end Enablement

/-- A step in which nothing happens but that a task goes on: it does its work, or something is
answered, or somebody waits for installs, or the surroundings change and show the same face. -/
def Step.Undisturbed {σ τ : Type} (face : σ → τ) (id : TaskId) : Step σ → Prop
  | work (.task i) => i = id
  | work (.report _) | work (.look _) | answer _ | wait _ => True
  | meanwhile f => ∀ o, face (f o) = face o
  | call _ _ | cancel _ => False

namespace Enablement

variable {σ τ : Type} {s : Surroundings σ} {face : σ → τ} {document : Handle}
  {filetype l : String} {x : Settings} {id : TaskId} {u b v w : World σ} {y : Step σ}

/-- A task is over. -/
def Over (id : TaskId) (v : World σ) : Prop := ∃ t, HasTask id t v ∧ t.phase.isOver = true

theorem Concluded.over (h : Concluded s face document filetype l x id b v) : Over id v := by
  obtain ⟨t, success, ht, hp, -⟩ := h
  exact ⟨t, ht, by rw [hp]; rfl⟩

/-- A task that is over stays so. -/
theorem exec_over (hy : y.Undisturbed face id) (hv : Over id v) : Over id (exec s y v) := by
  obtain ⟨t, ht, ho⟩ := hv
  cases y with
  | call _ _ => exact hy.elim
  | cancel _ => exact hy.elim
  | wait _ => exact ⟨t, ht, ho⟩
  | meanwhile _ => exact ⟨t, ht, ho⟩
  | answer ticket =>
    obtain ⟨t', ht', hsame⟩ := v.state.loop.answer_task ticket ht
    refine ⟨t', ht', ?_⟩
    rcases hsame with rfl | ⟨_, hp, -⟩
    · exact ho
    · rw [hp] at ho
      cases ho
  | work j =>
    have worked : Leads (HasTask id t) (work s j) (fun _ => HasTask id t) (HasTask id t) := by
      refine leads_work (blind_hasTask (by simp)) (fun _ hw => hw) fun i hi => ?_
      subst hi
      obtain rfl : i = id := hy
      have idle : ∀ p, p.isOver = false → t.phase ≠ p := by
        rintro p hp rfl
        exact absurd (ho.symm.trans hp) nofun
      exact leads_advance (C := fun _ => False) (fun _ hw => hw)
        (fun hp => absurd hp (idle _ rfl)) (fun hp => absurd hp (idle _ rfl))
        (fun _ hp => absurd hp (idle _ rfl)) (fun _ _ hw => hw.elim)
        (fun _ _ _ => ⟨fun hp => absurd hp (idle _ rfl), fun ⟨_, hp⟩ => absurd hp (idle _ rfl)⟩)
        fun _ _ _ hw => hw
    exact ⟨t, exec_work_of (I := HasTask id t) (fun _ _ hw => hw) ht (worked.run ht), ho⟩

/-- In an undisturbed step, a document that waits goes on waiting, or the install is concluded. -/
theorem exec_waits (h : Canvas s face l document) (hb : accepts s l b.outside = true)
    (hvalid : ∀ o, face o = face b.outside → accepts s l o = true →
      (s.reply (.isValid document) o).1 = .ok true)
    (hy : y.Undisturbed face id) (hv : Waits face document filetype l x id b v) :
    Waits face document filetype l x id b (exec s y v) ∨
      Concluded s face document filetype l x id b (exec s y v) := by
  obtain ⟨hawaits, hhears, t, ht, hlanguages, huncancelled, hflight⟩ := hv
  cases y with
  | call _ _ => exact hy.elim
  | cancel _ => exact hy.elim
  | wait _ => exact .inl ⟨{ hawaits with }, hhears, t, ht, hlanguages, huncancelled, hflight⟩
  | meanwhile f =>
    refine .inl ⟨{ hawaits with face := ?_ }, hhears, t, ht, hlanguages, huncancelled, hflight⟩
    exact (hy v.outside).trans hawaits.face
  | answer ticket =>
    obtain ⟨t', ht', hsame⟩ := v.state.loop.answer_task ticket ht
    refine .inl ⟨{ hawaits with }, hhears, t', ht', ?_⟩
    rcases hsame with rfl | ⟨_, -, rfl⟩
    · exact ⟨hlanguages, huncancelled, hflight⟩
    · exact ⟨hlanguages, huncancelled, rfl⟩
  | work j =>
    let Going (v : World σ) : Prop := Waits face document filetype l x id b v ∨
      Concluded s face document filetype l x id b v
    have running : ∀ v isOn, Going v → Going (v.setRunning isOn) := by
      rintro v isOn (hv | ⟨t, success, ht, hp, hshown⟩)
      · exact .inl ⟨{ hv.awaits with }, hv.hears, hv.installs⟩
      · refine .inr ⟨t, success, ht, hp, fun hs ha => ?_⟩
        exact ⟨{ (hshown hs ha).1 with }, (hshown hs ha).2⟩
    have waiting : Waits face document filetype l x id b v :=
      ⟨hawaits, hhears, t, ht, hlanguages, huncancelled, hflight⟩
    have worked : Leads (Waits face document filetype l x id b) (work s j) (fun _ => Going)
        Going := by
      have blind : Blind s [.waits, .queue] [] (Waits face document filetype l x id b) := by
        refine ⟨fun v k hv => { hv with awaits := { hv.awaits with } }, fun p hp v st hst hv => ?_,
          nofun⟩
        cases hst with
        | waits => exact { hv with awaits := { hv.awaits with } }
        | queue => exact { hv with awaits := { hv.awaits with } }
        | _ => simp at hp
      refine leads_work blind (fun _ hv => .inl hv) fun i hi => ?_
      subst hi
      obtain rfl : i = id := hy
      exact leads_advance_waits h hb hvalid i
    refine exec_work_of (I := Going) running (.inl waiting) (worked.run ?_)
    exact { waiting with awaits := { hawaits with } }

/-- If the task succeeds in its next step and the grammar is registered, then what is to be shown
is. -/
theorem exec_concludes (h : Canvas s face l document) (hb : accepts s l b.outside = true)
    (hvalid : ∀ o, face o = face b.outside → accepts s l o = true →
      (s.reply (.isValid document) o).1 = .ok true)
    (hw : Waits face document filetype l x id b w) (hv : exec s (.work (.task id)) w = v) {t : Task}
    (ht : HasTask id t v) (hsuccess : t.phase = .finished true)
    (hregistered : accepts s l v.outside = true) :
    Shown s face l filetype (destined s document l x b) v := by
  have undisturbed : (Step.work (σ := σ) (.task id)).Undisturbed face id := rfl
  have ended := exec_waits h hb hvalid undisturbed hw
  rw [hv] at ended
  rcases ended with ⟨-, -, t', ht', -, -, ho⟩ | ⟨t', success, ht', hp, hshown⟩
  · obtain rfl : t = t' := Option.some.inj (ht.symm.trans ht')
    rw [hsuccess] at ho
    cases ho
  · obtain rfl : t = t' := Option.some.inj (ht.symm.trans ht')
    exact hshown (Phase.finished.inj (hp.symm.trans hsuccess)) hregistered

/-! ## Runs -/

/-- In an undisturbed run, a document that waits goes on waiting until the install is over. -/
theorem run_waits (h : Canvas s face l document) (hb : accepts s l b.outside = true)
    (hvalid : ∀ o, face o = face b.outside → accepts s l o = true →
      (s.reply (.isValid document) o).1 = .ok true)
    {steps : List (Step σ)} (hsteps : ∀ y ∈ steps, y.Undisturbed face id)
    (hv : Waits face document filetype l x id b v) :
    Waits face document filetype l x id b (run s steps v) ∨ Over id (run s steps v) := by
  refine run_induction (I := fun v => Waits face document filetype l x id b v ∨ Over id v)
    (fun y hy v hv => ?_) (.inl hv)
  rcases hv with hv | hv
  · exact (exec_waits h hb hvalid (hsteps y hy) hv).imp (fun hv => hv) Concluded.over
  · exact .inr (exec_over (hsteps y hy) hv)

/-- A call to attach a document with a filetype. -/
theorem exec_attach (document : Handle) (filetype : String) (w : World σ) :
    exec s (.call true (.attach (some document) (some filetype))) w =
      ((attach s document filetype).run (w.setRunning true)).2.setRunning
        w.state.loop.isRunning := by
  have performed : perform s (.attach (some document) (some filetype)) =
      attach s document filetype >>= fun _ => pure () := rfl
  rw [exec_call, performed, run_bind]
  rcases (attach s document filetype).run (w.setRunning true) with ⟨_ | _, v⟩ <;> rfl

/-- Setting up does not change the tasks, nor whether documents are attached by themselves. -/
theorem prepare_aside (w : World σ) :
    ((prepare s).run w).2.state.loop = w.state.loop ∧
      ((prepare s).run w).2.state.autoAttach = w.state.autoAttach := by
  refine keeps_prepare (I := fun v => v.state.loop = w.state.loop ∧
    v.state.autoAttach = w.state.autoAttach) (Blind.of_state (J := fun st =>
      st.loop = w.state.loop ∧ st.autoAttach = w.state.autoAttach) fun p hp st st' hst h => ?_) w
    ⟨rfl, rfl⟩
  cases hst <;> first | exact h | simp at hp

/-- Setting up changes nothing that is shown. -/
theorem prepare_echoes (h : Canvas s face l document) (w : World σ) :
    Echoes s face l ((prepare s).run w).2 w :=
  keeps_prepare (blind_echoes h (by simp) (by simp) (by simp) (by simp)) w ⟨rfl, rfl, rfl⟩

/-- With the grammar, a call to attach the document shows it. -/
theorem exec_attach_provided (h : Canvas s face l document) {w : World σ}
    (hw : Grounded (w.setRunning true)) (hb : ((prepare s).run (w.setRunning true)).2 = b)
    (hdeferred : Deferred s face document filetype l u)
    (hprovided : Provided s face filetype l u b) :
    ∃ x, b.state.settings = some x ∧
      Shown s face l filetype ((Features.start s document l (x.resolve (some l))).run b).2
        (exec s (.call true (.attach (some document) (some filetype))) w) := by
  have entry : Assoc.get? b.state.registry filetype = some .unknown := by
    rw [hprovided.state]
    exact hdeferred.entry
  have unbundled : l ∉ b.state.bundled := by
    rw [hprovided.state]
    exact hdeferred.unbundled
  obtain ⟨⟨x, hx⟩, attached⟩ :=
    run_attach_of_entry document hw hb entry hprovided.language hdeferred.named
  let asked := afterCall s (.languageOf filetype) b
  have looks : Echoes s face l asked b :=
    { features := rfl
      face := h.other (.languageOf filetype) (by simp [Call.area]) (by simp [Call.area]) _
      registered := h.registered (.languageOf filetype) (by simp [Call.area]) _ }
  have started : Leads (fun v => v = asked) (attachManaged s document filetype l .unknown)
      (fun _ => Shown s face l filetype
        ((Features.start s document l (x.resolve (some l))).run b).2) fun _ => False :=
    leads_attach_provided h hx unbundled looks hprovided.registered
  obtain ⟨_, -, shown⟩ := started.exists_ok rfl
  refine ⟨x, hx, ?_⟩
  rw [exec_attach, attached]
  exact ⟨{ shown.1 with }, shown.2⟩

/-- Without the grammar, after a call to attach the document it waits. -/
theorem exec_attach_deferred (h : Canvas s face l document) {w : World σ}
    (hw : Grounded (w.setRunning true)) (hneat : Neat w.state)
    (hu : ((prepare s).run (w.setRunning true)).2 = u)
    (hdeferred : Deferred s face document filetype l u)
    (hprovided : Provided s face filetype l u b) (hx : b.state.settings = some x) :
    Waits face document filetype l x w.state.loop.tasks.length b
      (exec s (.call true (.attach (some document) (some filetype))) w) := by
  obtain ⟨-, attached⟩ :=
    run_attach_of_entry document hw hu hdeferred.entry hdeferred.language hdeferred.named
  have loop := (prepare_aside (s := s) (w.setRunning true)).1
  have neat : Neat u.state := by
    rw [← hu]
    exact keeps_prepare (blind_neat (by simp) (by simp)) (w.setRunning true)
      ⟨hneat.waiting, hneat.heard⟩
  rw [hu] at loop
  have waiting : Leads (fun v => v = afterCall s (.languageOf filetype) u)
      (attachManaged s document filetype l .unknown)
      (fun _ => Waits face document filetype l x u.state.loop.tasks.length b) fun _ => False :=
    leads_attach_deferred h hdeferred (hprovided.state ▸ hx) (by rw [loop]; rfl) hprovided neat
  obtain ⟨_, -, waits⟩ := waiting.exists_ok rfl
  rw [loop] at waits
  rw [exec_attach, attached]
  exact { waits with awaits := { waits.awaits with } }

/-- **Installed before or installed later.** In a world that a run ends in, a document is attached
with a filetype about which nothing is known, once the program is set up. The grammar of its language
is missing and not bundled, the settings allow an install, there is an installer, and the language is
not being installed. The document waits, and is not disturbed until the install has succeeded, when
the grammar is registered. Then the filetype is available, as it is after the same call if the
grammar had been registered before. While documents are attached by themselves, the features of all
documents are in the same state in both cases, and the editor answers the same about the features of
the document. After detaching, no features are shown at the end of the install. -/
theorem deferred_alike (h : Canvas s face l document) {w₀ : World σ} (hw₀ : Initial w₀)
    {before : List (Step σ)} {w : World σ} (hrun : run s before w₀ = w) {o : σ}
    (hu : ((prepare s).run (w.setRunning true)).2 = u)
    (hb : ((prepare s).run ({ w with outside := o }.setRunning true)).2 = b)
    (hdeferred : Deferred s face document filetype l u)
    (hprovided : Provided s face filetype l u b) (hid : w.state.loop.tasks.length = id)
    {steps : List (Step σ)} (hsteps : ∀ y ∈ steps, y.Undisturbed face id) {c v v' : World σ}
    (hc : run s (.call true (.attach (some document) (some filetype)) :: steps) w = c)
    (hflight : c.state.loop.isOver id = false) (hv : exec s (.work (.task id)) c = v) {t : Task}
    (ht : v.state.loop.tasks[id]? = some t) (hsuccess : t.phase = .finished true)
    (hregistered : accepts s l v.outside = true)
    (hv' : exec s (.call true (.attach (some document) (some filetype)))
      { w with outside := o } = v') :
    Assoc.get? v.state.registry filetype = some .available ∧
    Assoc.get? v'.state.registry filetype = some .available ∧
    (w.state.autoAttach = true →
      v.state.features = v'.state.features ∧ face v.outside = face v'.outside ∧
        ∀ call : Call, call.Presents document →
          (s.reply call v.outside).1 = (s.reply call v'.outside).1) ∧
    (w.state.autoAttach = false →
      v.state.features = w.state.features ∧ face v.outside = face w.outside) := by
  have grounded : Grounded w := by
    rw [← hrun]
    exact run_induction (fun y _ _ => exec_grounded y) (grounded_initial hw₀)
  have neat : Neat w.state := by
    rw [← hrun]
    refine run_induction (I := fun w => Neat w.state) (fun y _ _ => exec_neat y) ?_
    rw [hw₀.state]
    exact ⟨nofun, fun _ => List.nodup_nil⟩
  have hauto := (prepare_aside (s := s) ({ w with outside := o }.setRunning true)).2
  have hfeatures := (prepare_echoes h ({ w with outside := o }.setRunning true)).features
  have hface := (prepare_echoes h (w.setRunning true)).face
  rw [hb] at hauto hfeatures
  rw [hu] at hface
  have hvalid : ∀ o, face o = face b.outside → accepts s l o = true →
      (s.reply (.isValid document) o).1 = .ok true :=
    fun o ho => hdeferred.valid o (ho.trans hprovided.face)
  -- with the grammar, the document is started at once
  obtain ⟨x, hx, shown'⟩ := exec_attach_provided h (w := { w with outside := o })
    ⟨grounded.unprepared, grounded.known⟩ hb hdeferred hprovided
  rw [hv'] at shown'
  -- without it, the document waits until the install is over
  have waits := exec_attach_deferred h ⟨grounded.unprepared, grounded.known⟩ neat hu hdeferred
    hprovided hx
  rw [hid] at waits
  have waiting : Waits face document filetype l x id b c := by
    have going := run_waits h hprovided.registered hvalid hsteps waits
    rw [← run_cons, hc] at going
    refine going.resolve_right fun ⟨t, ht, ho⟩ => ?_
    unfold Loop.isOver at hflight
    rw [ht] at hflight
    exact absurd (ho.symm.trans hflight) nofun
  have shown : Shown s face l filetype (destined s document l x b) v :=
    exec_concludes h hprovided.registered hvalid waiting hv ht hsuccess hregistered
  refine ⟨shown.2, shown'.2, fun hon => ?_, fun hoff => ?_⟩
  · have goal : destined s document l x b =
        ((Features.start s document l (x.resolve (some l))).run b).2 := if_pos (hauto.trans hon)
    rw [goal] at shown
    have same : face v.outside = face v'.outside := shown.1.face.trans shown'.1.face.symm
    refine ⟨shown.1.features.trans shown'.1.features.symm, same, fun call hcall => ?_⟩
    exact (h.presents call hcall _ _ same
      (shown.1.registered.trans shown'.1.registered.symm)).1
  · have off : ¬ b.state.autoAttach = true := by
      rw [hauto]
      simp [World.setRunning, hoff]
    have goal : destined s document l x b = b := if_neg off
    rw [goal] at shown
    exact ⟨shown.1.features.trans hfeatures, shown.1.face.trans (hprovided.face.trans hface)⟩

/-- Lua is managed with all features, and installed when needed. -/
def featuredWorld : World Script.Stage :=
  .equipped openWorld.outside { parsers := ["lua"], flags := ⟨true, true, true, true⟩ }

/-- The call of the installer is made and ends well. -/
def proceeding : List (Step Script.Stage) := [.work (.task 0), .meanwhile endsWell, .answer 0]

theorem proceeding_undisturbed : ∀ y ∈ proceeding, y.Undisturbed Script.Stage.shown 0 := by
  intro y hy
  simp only [proceeding, List.mem_cons, List.not_mem_nil, or_false] at hy
  rcases hy with rfl | rfl | rfl
  · rfl
  · exact fun _ => rfl
  · trivial

/-- A document of lua waits for the install, and is folded, indented and highlighted in the end, as it
would have been at once with the grammar. -/
theorem deferred_alike_featured :
    let s := Script.Stage.surroundings
    let attach : Step Script.Stage := .call true (.attach (some (.number 1)) (some "lua"))
    let v := exec s (.work (.task 0)) (run s (attach :: proceeding) featuredWorld)
    let v' := exec s attach
      { featuredWorld with outside := featuredWorld.outside.register ["lua"] }
    v.state.features = v'.state.features ∧ v.outside.shown = v'.outside.shown ∧
      v.outside.shown.highlighting = [(.number 1, "lua")] := by
  intro s attach v v'
  let o := featuredWorld.outside.register ["lua"]
  let u := ((prepare s).run (featuredWorld.setRunning true)).2
  let b := ((prepare s).run ({ featuredWorld with outside := o }.setRunning true)).2
  have settings : u.state.settings = featuredWorld.state.settings := by decide +kernel
  have outside : u.outside = featuredWorld.outside := rfl
  have asked := Script.Stage.reply_shown (c := .isValid (.number 1)) (by simp [Call.area]) nofun
  have deferred : Deferred s Script.Stage.shown (.number 1) "lua" "lua" u :=
    { entry := by decide +kernel
      named := by decide
      language := rfl
      unbundled := by decide +kernel
      missing := by decide +kernel
      allowed := by
        intro x hx
        obtain rfl := Option.some.inj (settings.symm.trans hx)
        rfl
      installer := rfl
      idle := by decide +kernel
      alone := by decide +kernel
      valid := by
        intro o' hface _
        refine (asked o').1.trans ?_
        rw [hface, outside]
        rfl }
  have provided : Provided s Script.Stage.shown "lua" "lua" u b :=
    { state := by rfl
      face := by rfl
      registered := by decide +kernel
      language := by rfl }
  have started : run s [] featuredWorld = featuredWorld := rfl
  have initial : Initial featuredWorld := ⟨rfl, rfl⟩
  have attaching : featuredWorld.state.autoAttach = true := rfl
  have first : featuredWorld.state.loop.tasks.length = 0 := rfl
  obtain ⟨c, hc⟩ : ∃ c, run s (attach :: proceeding) featuredWorld = c := ⟨_, rfl⟩
  have hv : exec s (.work (.task 0)) c = v := by rw [← hc]
  have flight : c.state.loop.isOver 0 = false := by
    rw [← hc]
    decide +kernel
  have ended : v.state.loop.tasks[0]? = some { languages := ["lua"], phase := .finished true } := by
    decide +kernel
  have registered : accepts s "lua" v.outside = true := by decide +kernel
  have lit : v.outside.shown.highlighting = [(.number 1, "lua")] := by decide +kernel
  have hv' : exec s attach { featuredWorld with outside := o } = v' := rfl
  obtain ⟨-, -, alike, -⟩ := deferred_alike (Script.Stage.canvas "lua" (.number 1)) initial started
    (o := o) rfl rfl deferred provided first proceeding_undisturbed hc flight hv ended rfl registered
    hv'
  obtain ⟨features, face, -⟩ := alike attaching
  exact ⟨features, face, lit⟩

/-- The grammar of lua is missing, nothing is known about its filetype, and it can be installed and is
not being installed. -/
structure LuaMissing (w : World Script.Stage) : Prop where
  settings : w.state.settings = featuredWorld.state.settings
  entry : Assoc.get? w.state.registry "lua" = some .unknown
  unbundled : "lua" ∉ w.state.bundled
  missing : accepts Script.Stage.surroundings "lua" w.outside = false
  installer : ((Gateway.isPresent Script.Stage.surroundings).run w).1.toOption = some true
  idle : Assoc.get? w.state.gateway.pending "lua" = none

/-- Another document is attached that has no features, and documents are no longer attached by
themselves. -/
def detaching : List (Step Script.Stage) :=
  [.call true (.attach (some (.number 2)) (some "text")), .call true .detach]

/-- Another document waits for lua, and its install is given up. -/
def givingUp : List (Step Script.Stage) :=
  [.call true (.attach (some (.number 2)) (some "lua")), .work (.task 0), .cancel 0,
    .work (.task 0)]

/-- The second call of the installer is made and ends well. -/
def proceedingAnew : List (Step Script.Stage) :=
  [.work (.task 1),
    .meanwhile fun st =>
      { st with installer := st.installer.finish 1 (.value (.bool true) true) },
    .answer 1]

/-- After detaching, the document is not started at the end of the install, though it would have been
at once with the grammar: explicit calls attach documents, detached or not. And where another document
still waits for the language after an install that was given up, that one is started as well at the
end of the install. -/
theorem deferred_differs :
    let s := Script.Stage.surroundings
    let attach : Step Script.Stage := .call true (.attach (some (.number 1)) (some "lua"))
    let sooner (w : World Script.Stage) : World Script.Stage :=
      exec s attach { w with outside := w.outside.register ["lua"] }
    let detached := run s detaching featuredWorld
    let v := exec s (.work (.task 0)) (run s (attach :: proceeding) detached)
    let givenUp := run s givingUp featuredWorld
    let u := exec s (.work (.task 1)) (run s (attach :: proceedingAnew) givenUp)
    Initial featuredWorld ∧
      (LuaMissing detached ∧
        v.state.loop.tasks = [{ languages := ["lua"], phase := .finished true }] ∧
        accepts s "lua" v.outside = true ∧
        v.state.features.isActive (.number 1) = false ∧
        (sooner detached).state.features.isActive (.number 1) = true) ∧
      (LuaMissing givenUp ∧
        u.state.loop.tasks[1]? = some { languages := ["lua"], phase := .finished true } ∧
        accepts s "lua" u.outside = true ∧
        (Assoc.get? u.outside.editor.documentOptions (.number 2)).isSome = true ∧
        Assoc.get? (sooner givenUp).outside.editor.documentOptions (.number 2) = none) := by
  intro s attach sooner detached v givenUp u
  refine ⟨⟨rfl, rfl⟩, ⟨⟨?_, ?_, ?_, ?_, ?_, ?_⟩, ?_, ?_, ?_, ?_⟩,
    ⟨?_, ?_, ?_, ?_, ?_, ?_⟩, ?_, ?_, ?_, ?_⟩
  all_goals decide +kernel

end Enablement

end TreeFeatures
