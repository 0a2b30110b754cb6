import TreeFeatures.Proofs.Enablement.Containment
import TreeFeatures.Proofs.Enablement.Exchange
import TreeFeatures.Proofs.Features.Parts

/-!
# What attaching decides

Once the program is set up, attaching a document is one decision. It rests on what is known about
the filetype, on whether the grammar of its language is registered and whether it is bundled, and on
whether an installer is to be used: the settings have the language installed on demand, and there is
an installer.

* `Asked` is a world in which the editor and the search for an installer were asked what the
  decision rests on, and nothing was done yet. `CarriedOut` says what each decision comes to from
  there.
* `Confined`: only options of the document and of its view were written. `leads_start_confined`:
  showing features keeps that.
* `Decided` is the rule for documents of a managed filetype that has a language, and `Apart` what
  attaching leaves alone. `attach_decides` is the result.
-/

namespace TreeFeatures

open Act

variable {σ : Type} {s : Surroundings σ} {document : Handle} {w v : World σ} {E : World σ → Prop}

/-! ## Options of the document and its view -/

/-- An option of the document, or of a view that the editor named for it. -/
def Slot.Within (o : Slot) (document : Handle) (h : List Moment) : Prop :=
  o.scope = .document ∧ o.handle = document ∨
    o.scope = .view ∧ .answered (.viewOf document) (.ok o.handle) ∈ h

theorem Slot.Within.mono {o : Slot} {h h' : List Moment} (ho : o.Within document h) (hh : h ⊆ h') :
    o.Within document h' :=
  ho.imp_right fun ho => ⟨ho.1, hh ho.2⟩

/-- Calls that do not write an option leave it as it is. -/
theorem Framed.replay {value : σ → Slot → Value} (h : Framed s value) (x : σ) {o : Slot}
    {es : List Event} (ho : o ∉ es.filterMap Event.written?) :
    value (replay s x es).2 o = value x o := by
  induction es with
  | nil => rfl
  | cons e es ih =>
    rw [List.mem_filterMap] at ho
    have rest : value (TreeFeatures.replay s x es).2 o = value x o := by
      refine ih fun hmem => ho ?_
      obtain ⟨e', he', hw⟩ := List.mem_filterMap.mp hmem
      exact ⟨e', List.mem_cons_of_mem e he', hw⟩
    cases e with
    | asked c => exact (h c _ o fun hc => ho ⟨.asked c, List.mem_cons_self, hc⟩).trans rest
    | told => exact rest
    | requested => exact rest

/-- On the way to a world, an option that was not written kept its value. -/
theorem Framed.unwritten {value : σ → Slot → Value} (h : Framed s value) (hv : Follows s w v)
    {o : Slot} (ho : o ∉ written w v) : value v.outside o = value w.outside o := by
  rw [hv.outside]
  exact h.replay w.outside ho

/-- On the way from a world, only options of the document and of its view were written. -/
structure Confined (s : Surroundings σ) (document : Handle) (w v : World σ) : Prop where
  follows : Follows s w v
  tidy : v.state.features.Tidy
  writes : ∀ o ∈ written w v, o.Within document (extend s [] w v)

namespace Confined

theorem refl (hw : w.state.features.Tidy) : Confined s document w w where
  follows := .refl w
  tidy := hw
  writes o ho := by simp at ho

theorem ask (hv : Confined s document w v) {c : Call}
    (hc : ∀ o, c.written? = some o → o.Within document (extend s [] w v)) :
    Confined s document w (afterCall s c v) := by
  obtain ⟨follows, moments⟩ := hv.follows.ask (h := []) c
  refine ⟨follows, hv.tidy, fun o ho => ?_⟩
  have within : o.Within document (extend s [] w v) := by
    rw [written_cons hv.follows.trace (e := .asked c) rfl] at ho
    rcases List.mem_append.mp ho with ho | ho
    · exact hc o (Option.mem_toList.mp ho)
    · exact hv.writes o ho
  rw [moments]
  exact within.mono (List.subset_cons_self _ _)

/-- A call that writes no option. -/
theorem ask_of_area (hv : Confined s document w v) {c : Call} (hc : c.area ≠ .options) :
    Confined s document w (afterCall s c v) := by
  refine hv.ask fun o ho => ?_
  rw [Call.written?_of_area_ne hc] at ho
  cases ho

theorem log (hv : Confined s document w v) (l : List LogEntry) :
    Confined s document w { v with log := l } :=
  ⟨⟨hv.follows.trace, hv.follows.outside⟩, hv.tidy, hv.writes⟩

/-- The state does not matter, as long as records stand where they belong. -/
theorem update (hv : Confined s document w v) {st : State} (hst : st.features.Tidy) :
    Confined s document w { v with state := st } :=
  ⟨⟨hv.follows.trace, hv.follows.outside⟩, hst, hv.writes⟩

end Confined

theorem blind_confined {parts : List Part} {areas : List Area} (h : Area.options ∉ areas) :
    Blind s parts areas (Confined s document w) where
  log _ l hv := hv.log l
  write p hp v st hst hv :=
    have tidy : Blind s parts [] fun v => v.state.features.Tidy := blind_tidy
    hv.update (tidy.write p hp v st hst hv.tidy)
  ask _ hc _ hv := hv.ask_of_area fun e => h (e ▸ hc)

namespace Features

/-- Overriding an option of the document or of its view writes no other option. -/
theorem leads_override_confined {o : Slot} (ho : o.scope = scopeOf o.name) (target : String) :
    Leads (fun v => Confined s document w v ∧ o.Within document (extend s [] w v))
      (override s document o.name o.scope target o.handle)
      (fun _ v => Confined s document w v ∧ o.Within document (extend s [] w v))
      fun v => Confined s document w v ∧ o.Within document (extend s [] w v) := by
  have asked : ∀ c : Call, (∀ o', c.written? = some o' → o' = o) → ∀ v,
      Confined s document w v ∧ o.Within document (extend s [] w v) →
      Confined s document w (afterCall s c v) ∧
        o.Within document (extend s [] w (afterCall s c v)) := by
    intro c hc v hv
    refine ⟨hv.1.ask fun o' ho' => hc o' ho' ▸ hv.2, ?_⟩
    rw [(hv.1.follows.ask (h := []) c).2]
    exact hv.2.mono (List.subset_cons_self _ _)
  refine leads_override_asking ho target (fun v l hv => ⟨hv.1.log l, hv.2⟩)
    (fun v hv => hv.1.tidy document) (asked _ fun _ h => nomatch h) (fun v x => asked _ ?_ v)
    fun v r hv hr => ?_
  · rintro _ ⟨⟩
    rfl
  · exact ⟨hv.1.update ((Proceeds.override _ document ho hr).tidy hv.1.tidy), hv.2⟩

theorem leads_display_confined (l : String) (f : Feature) :
    Leads (Confined s document w) (display s document l f) (fun _ => Confined s document w) E := by
  have blind : Blind s [] [.features] (Confined s document w) := blind_confined (by simp)
  cases f with
  | highlights => exact (blind.keeps_ask (by simp [Call.area])).leads.shielded blind.log
  | folds =>
    refine Leads.shielded (leads_state_any.bind fun st => ?_) blind.log
    -- From its answer on, the view is one that the editor named for the document.
    refine Leads.bind (Q := fun view v => Confined s document w v ∧
      (⟨.view, view, "foldmethod"⟩ : Slot).Within document (extend s [] w v))
      (leads_ask (fun v view hv hview => ⟨hv.ask_of_area (by simp [Call.area]), ?_⟩)
        fun v _ hv _ => hv.ask_of_area (by simp [Call.area])) fun view => ?_
    · rw [(hv.follows.ask (h := []) _).2, hview]
      exact .inr ⟨rfl, List.mem_cons_self⟩
    · exact ((leads_override_confined (o := ⟨.view, view, "foldmethod"⟩) rfl _).bind fun _ =>
        leads_override_confined (o := ⟨.view, view, "foldexpr"⟩) rfl _).mono
          (fun _ hv => hv) (fun _ _ hv => hv.1) fun _ hv => hv.1
  | indents =>
    refine Leads.shielded (leads_state_any.bind fun st => ?_) blind.log
    exact (leads_override_confined (o := ⟨.document, document, "indentexpr"⟩) rfl _).mono
      (fun _ hv => ⟨hv, .inl ⟨rfl, rfl⟩⟩) (fun _ _ hv => hv.1) fun _ hv => hv.1

/-- **Showing features writes only options of the document and of its view.** -/
theorem leads_start_confined (l : String) (flags : Flags) :
    Leads (Confined s document w) (start s document l flags) (fun _ => Confined s document w) E :=
  leads_start_each (fun _ l hv => hv.log l)
    (fun _ hv => hv.update ((Proceeds.activate _ document).tidy hv.tidy))
    (fun _ _ hv => hv.ask_of_area (by simp [Call.area])) (leads_display_confined l) flags

end Features

/-! ## What the decision rests on -/

namespace Enablement

variable {filetype l : String} {flags : Flags} {known : Availability} {x : Settings}

/-- The language that the editor names for a filetype, if it names one. -/
def named (s : Surroundings σ) (filetype : String) (w : World σ) : Option String :=
  match (s.reply (.languageOf filetype) w.outside).1 with
  | .ok (language : Option String) => language.filter (· ≠ "")
  | .error _ => none

/-- Whether looking for an installer finds one. -/
def findsInstaller (s : Surroundings σ) (w : World σ) : Bool :=
  match ((Gateway.isPresent s).run w).1 with
  | .ok b => b
  | .error _ => false

/-- On the way from a world, the editor and the search for an installer were asked, and nothing was
done: what is known about the installer aside, the state is the same. -/
structure Asked (s : Surroundings σ) (w v : World σ) : Prop where
  state : Searched w.state v
  follows : Follows s w v
  calls : ∀ c, .asked c ∈ news w v → c.area = .editor ∨ c.area = .discovery

theorem Asked.refl (w : World σ) : Asked s w w :=
  ⟨⟨_, rfl⟩, .refl w, fun c hc => by simp at hc⟩

theorem blind_asked : Blind s [.installer] [.editor, .discovery] (Asked s w) where
  log _ _ hv := ⟨hv.state, ⟨hv.follows.trace, hv.follows.outside⟩, hv.calls⟩
  write p hp v st hst hv :=
    have searched : Blind s [.installer] [] (Searched w.state) := blind_searched
    ⟨searched.write p hp v st hst hv.state, ⟨hv.follows.trace, hv.follows.outside⟩, hv.calls⟩
  ask c hc v hv := by
    refine ⟨hv.state, (hv.follows.ask (h := []) c).1, fun c' hc' => ?_⟩
    rw [news_cons (e := .asked c) hv.follows.trace rfl] at hc'
    rcases List.mem_cons.mp hc' with e | hc'
    · obtain rfl := Event.asked.inj e
      simpa using hc
    · exact hv.calls c' hc'

/-- What the editor is asked and the search for an installer write no option. -/
theorem not_mem_written (h : ∀ c, .asked c ∈ news w v → c.area = .editor ∨ c.area = .discovery)
    {o : Slot} : o ∉ written w v := by
  intro ho
  obtain ⟨e, he, hwritten⟩ := List.mem_filterMap.mp ho
  cases e with
  | asked c =>
    have area : c.area ≠ .options := fun e => (h c he).elim (by simp [e]) (by simp [e])
    exact nomatch (Call.written?_of_area_ne area).symm.trans hwritten
  | _ => cases hwritten

theorem Asked.confined (hv : Asked s w v) (hw : w.state.features.Tidy) :
    Confined s document w v where
  follows := hv.follows
  tidy := by
    obtain ⟨i, hi⟩ := hv.state
    rw [hi]
    exact hw
  writes _ ho := absurd ho (not_mem_written hv.calls)

/-- The editor is asked for the language of the filetype. -/
theorem run_languageFor_of_named (h : named s filetype w = some l) :
    (languageFor s filetype).run w = (.ok (some l), afterCall s (.languageOf filetype) w) := by
  unfold named at h
  split at h
  · next language hr =>
    obtain ⟨rfl, hl⟩ := Option.filter_eq_some_iff.mp h
    exact run_languageFor (by simpa using hl) hr
  · cases h

/-- Without a language, an entry of the log may say why. -/
theorem run_languageFor_of_unnamed (h : named s filetype w = none) :
    ∃ k, (languageFor s filetype).run w =
      (.ok none, { afterCall s (.languageOf filetype) w with log := k }) := by
  unfold named at h
  unfold languageFor
  rw [run_bind_of_ok _ (run_attempt _ w), run_ask]
  split at h
  · next language hr =>
    rw [hr]
    exact ⟨w.log, congrArg (fun r => (Except.ok r, _)) h⟩
  · next f hr =>
    rw [hr]
    exact ⟨_, rfl⟩

/-- An installer is looked for only if the flags allow an install. -/
theorem run_mayInstall_fst (flags : Flags) (w : World σ) :
    ((mayInstall s flags).run w).1 = .ok (flags.autoInstall && findsInstaller s w) := by
  unfold mayInstall
  split
  · next hauto =>
    obtain ⟨b, hb, -⟩ := (Gateway.leads_isPresent (s := s) (E := fun _ => False) .always).exists_ok
      (w := w) trivial
    rw [hb, hauto, findsInstaller, hb, Bool.true_and]
  · next hauto => rw [Bool.eq_false_iff.mpr hauto, Bool.false_and, run_pure]

theorem Decision.of_congr {ready ready' : Bool} (h : known = .unknown → ready' = ready)
    (bundled use : Bool) :
    Decision.of known ready' bundled use = Decision.of known ready bundled use := by
  cases known with
  | unknown => rw [h rfl]
  | available => rfl
  | unavailable => rfl

/-- The plan for documents of a language, made by asking only. -/
theorem leads_planManaged_asked {u : World σ} (hu : Asked s w u) (hx : w.state.settings = some x)
    (l : String) (known : Availability) :
    let flags := x.resolve (some l)
    Leads (fun v => v = u) (planManaged s l known)
      (fun p v => p = ⟨l, flags, known, Decision.of known
        (registers s l ((mayInstall s flags).run u).2) (w.state.bundled.contains l)
        (flags.autoInstall && findsInstaller s u)⟩ ∧ Asked s w v) E := by
  intro flags
  obtain ⟨i, hi⟩ := hu.state
  have settings : u.state.settings = some x := by
    rw [hi]
    exact hx
  let u' := ((mayInstall s flags).run u).2
  have may : (mayInstall s flags).run u =
      (.ok (flags.autoInstall && findsInstaller s u), u') :=
    Prod.ext (run_mayInstall_fst flags u) rfl
  have hu' : Asked s w u' := keeps_mayInstall (blind_asked.mono (by simp) (by simp)) flags u hu
  have bundled : u'.state.bundled = w.state.bundled := by
    obtain ⟨i', hi'⟩ := hu'.state
    rw [hi']
  have probed : Leads (fun v => v = u') (probe s l known)
      (fun r v => (known = .unknown → r = registers s l u') ∧ Asked s w v) E := by
    unfold probe
    split
    · have kept : Keeps (Asked s w) (grammarReady s l) :=
        keeps_grammarReady (blind_asked.mono (by simp) (by simp)) l
      exact ((leads_grammarReady_exact u').and_keeps kept).mono (fun v hv => ⟨hv, hv ▸ hu'⟩)
        (fun r v hv => ⟨fun _ => hv.1.1, hv.2⟩) fun _ hv => hv
    · next hne => exact leads_pure fun v hv => ⟨fun h => absurd h hne, hv ▸ hu'⟩
  rintro v rfl
  rw [planManaged, run_bind_of_ok _ (run_resolve settings (some l)), decideOn,
    run_bind_of_ok _ may, run_bind_of_ok _ (run_state u'), bundled]
  refine (probed.bind fun r => leads_pure fun v hv => ⟨?_, hv.2⟩) u' rfl
  rw [Decision.of_congr hv.1]

/-! ## Carrying out -/

/-- The features of a document are shown, once its filetype is recorded as available. -/
def shown (s : Surroundings σ) (document : Handle) (filetype l : String) (flags : Flags)
    (u : World σ) : World σ :=
  ((Features.start s document l flags).run
    { u with state := { u.state with registry := u.state.registry.set filetype .available } }).2

/-- What each decision comes to, once everything was asked that it rests on. -/
inductive CarriedOut (s : Surroundings σ) (document : Handle) (filetype : String) (p : Plan)
    (w : World σ) : Option Availability → World σ → Prop
  | start {u : World σ} : p.decision = .start ∨ p.decision = .fallBack → Asked s w u →
      CarriedOut s document filetype p w (some .available)
        (shown s document filetype p.language p.flags u)
  | install {u : World σ} : p.decision = .install → Asked s w u →
      CarriedOut s document filetype p w (some p.known)
        ((installFor s document filetype p.language).run u).2
  | leave {u : World σ} : p.decision = .leave → Asked s w u →
      CarriedOut s document filetype p w (some p.known) u

theorem leads_startAvailable_shown (document : Handle) (filetype l : String) (flags : Flags) :
    Leads (Asked s w) (startAvailable s document filetype l flags)
      (fun r v => r = some .available ∧ ∃ u, Asked s w u ∧ v = shown s document filetype l flags u)
      E := by
  refine (leads_setAvailability_by (Q := fun v => ∃ u, Asked s w u ∧ v = { u with state :=
    { u.state with registry := u.state.registry.set filetype .available } })
    blind_asked.log fun u hu => ⟨u, hu, rfl⟩).bind fun _ => ?_
  refine Leads.bind (Q := fun _ v => ∃ u, Asked s w u ∧ v = shown s document filetype l flags u)
    ?_ fun _ => leads_pure fun v hv => ⟨rfl, hv⟩
  rintro _ ⟨u, hu, rfl⟩
  have hok := run_start (s := s) document l flags { u with state :=
    { u.state with registry := u.state.registry.set filetype .available } }
  rw [shielded, run_of, ← Prod.eta ((Features.start s document l flags).run _), hok]
  exact ⟨u, hu, rfl⟩

/-- Having a language installed puts the document on the list first, and takes all documents off it
if nothing can be installed. -/
theorem run_installFor (document : Handle) (filetype l : String) (u : World σ) :
    ∃ t v, (Gateway.install s l (some .enablement)).run
        { u with state := u.state.enqueue l ⟨document, filetype⟩ } = (.ok t, v) ∧
      (installFor s document filetype l).run u =
        (.ok (), if t.isSome then v else { v with state := v.state.dequeue l }) := by
  let u' : World σ := { u with state := u.state.enqueue l ⟨document, filetype⟩ }
  have dispatched : Leads (fun _ => True) (Gateway.install s l (some .enablement))
      (fun _ _ => True) fun _ => False :=
    Gateway.leads_dispatch .always (fun _ _ _ h => h) (fun _ h => h) fun _ h _ _ => h
  obtain ⟨t, ht, -⟩ := dispatched.exists_ok (w := u') trivial
  have run : (Gateway.install s l (some .enablement)).run u' =
      (.ok t, ((Gateway.install s l (some .enablement)).run u').2) := Prod.ext ht rfl
  refine ⟨t, _, run, ?_⟩
  rw [installFor, run_bind_of_ok _ (run_update _ u), run_bind_of_ok _ run]
  cases t <;> rfl

theorem leads_carryOut_carriedOut (document : Handle) (filetype : String) (p : Plan) :
    Leads (Asked s w) (carryOut s document filetype (some p))
      (fun r v => CarriedOut s document filetype p w r v) E := by
  have started : p.decision = .start ∨ p.decision = .fallBack →
      Leads (Asked s w) (startAvailable s document filetype p.language p.flags)
        (fun r v => CarriedOut s document filetype p w r v) E := fun hd =>
    (leads_startAvailable_shown document filetype p.language p.flags).weaken
      fun r v ⟨hr, u, hu, hv⟩ => hr ▸ hv ▸ .start hd hu
  simp only [carryOut]
  split
  case h_1 hd => exact started (.inl hd)
  case h_2 hd => exact leads_pure fun v hv => .leave hd hv
  case h_3 hd =>
    intro u hu
    obtain ⟨t, v, -, run⟩ := run_installFor (s := s) document filetype p.language u
    have installed : CarriedOut s document filetype p w (some p.known)
        ((installFor s document filetype p.language).run u).2 := .install hd hu
    rw [run_bind_of_ok _ run]
    rwa [run] at installed
  case h_4 hd =>
    exact (leads_note fun u hu => blind_asked.log u _ hu).bind fun _ => started (.inr hd)

/-! ## What is left alone -/

/-- What attaching a document leaves as it is: the entries of other filetypes, the features of other
documents, and all that is not about filetypes, documents and installs. -/
structure Apart (document : Handle) (filetype : String) (st st' : State) : Prop where
  registry : ∀ ft, ft ≠ filetype → Assoc.get? st'.registry ft = Assoc.get? st.registry ft
  features : ∀ d, d ≠ document →
    Assoc.get? st'.features.documents d = Assoc.get? st.features.documents d
  targets : st'.features.targets = st.features.targets
  settings : st'.settings = st.settings
  bundled : st'.bundled = st.bundled
  initialized : st'.initialized = st.initialized
  autoAttach : st'.autoAttach = st.autoAttach
  errors : st'.gateway.errors = st.gateway.errors

theorem Apart.refl (st : State) : Apart document filetype st st :=
  ⟨fun _ _ => rfl, fun _ _ => rfl, rfl, rfl, rfl, rfl, rfl, rfl⟩

theorem blind_apart {areas : List Area} (st : State) :
    Blind s [.installer, .waiters, .pending, .callbacks, .tasks, .queue] areas
      fun v => Apart document filetype st v.state := by
  refine Blind.of_state (J := Apart document filetype st) fun p hp st₁ st₂ hst h => ?_
  cases hst with
  | installer | waiters | pending | callbacks | tasks | queue => exact { h with }
  | _ => simp at hp

/-- A property that asking has, and that changes of the entry, of features of the document and of
what is about installs leave alone, holds after every decision was carried out. -/
theorem CarriedOut.holds {p : Plan} {r : Option Availability} {I : World σ → Prop}
    (h : CarriedOut s document filetype p w r v) (hasked : ∀ u, Asked s w u → I u)
    (hset : ∀ u, I u → I { u with state :=
      { u.state with registry := u.state.registry.set filetype .available } })
    (hstart : ∀ l flags, Keeps I (Features.start s document l flags))
    (hblind : Blind s (.waiters :: Gateway.requestParts) [.discovery] I) : I v := by
  cases h with
  | start _ hu => exact hstart _ _ _ (hset _ (hasked _ hu))
  | install _ hu =>
    exact keeps_installFor (hblind.mono (by simp) (by simp))
      (Gateway.keeps_dispatch (hblind.mono (by simp) (by simp)) _ _) document filetype _
      (hasked _ hu)
  | leave _ hu => exact hasked _ hu

theorem CarriedOut.apart {p : Plan} {r : Option Availability}
    (h : CarriedOut s document filetype p w r v) :
    Apart document filetype w.state v.state := by
  have blind : Blind s [.installer, .waiters, .pending, .callbacks, .tasks, .queue] [.discovery]
      fun v => Apart document filetype w.state v.state := blind_apart w.state
  refine h.holds (I := fun v => Apart document filetype w.state v.state) (fun u hu => ?_)
    (fun u hu => ?_) (fun l flags => ?_) (blind.mono (by simp) (by simp))
  · obtain ⟨i, hi⟩ := hu.state
    rw [hi]
    exact { Apart.refl w.state with }
  · refine { hu with registry := fun ft hft => ?_ }
    exact (Assoc.get?_put_of_ne _ _ (Ne.symm hft)).trans (hu.registry ft hft)
  · have untouched : Blind s [] [.features, .options]
        fun v => Apart document filetype w.state v.state :=
      (blind_apart w.state).mono (by simp) (List.Subset.refl _)
    refine Features.keeps_start_of untouched document
      (fun u t hu => { hu with features := fun d hd => ?_ }) l flags
    exact (Assoc.get?_put_of_ne _ _ (Ne.symm hd)).trans (hu.features d hd)

theorem CarriedOut.confined {p : Plan} {r : Option Availability}
    (h : CarriedOut s document filetype p w r v) (hw : w.state.features.Tidy) :
    Confined s document w v :=
  h.holds (I := Confined s document w) (fun _ hu => hu.confined hw) (fun _ hu => hu.update hu.tidy)
    (fun l flags => (Features.leads_start_confined l flags).keeps) (blind_confined (by simp))

/-- Entries and features are as they were, and nothing was asked about features and options. -/
structure Unshown (w v : World σ) : Prop where
  registry : v.state.registry = w.state.registry
  features : v.state.features = w.state.features
  trace : w.trace <:+ v.trace
  calls : ∀ c, .asked c ∈ news w v → c.area = .editor ∨ c.area = .discovery

theorem Asked.unshown (hv : Asked s w v) : Unshown w v where
  registry := by
    obtain ⟨i, hi⟩ := hv.state
    rw [hi]
  features := by
    obtain ⟨i, hi⟩ := hv.state
    rw [hi]
  trace := hv.follows.trace
  calls := hv.calls

theorem blind_unshown : Blind s (.waiters :: Gateway.requestParts) [.discovery] (Unshown w) where
  log _ _ hv := { hv with }
  write p hp v st hst hv := by
    cases hst with
    | waiters | installer | pending | callbacks | tasks | queue => exact { hv with }
    | _ => simp at hp
  ask c hc v hv :=
    { hv with
      trace := hv.trace.trans (List.suffix_cons _ _)
      calls := fun c' hc' => by
        rw [news_cons (e := .asked c) hv.trace rfl] at hc'
        rcases List.mem_cons.mp hc' with e | hc'
        · obtain rfl := Event.asked.inj e
          exact .inr (List.mem_singleton.mp hc)
        · exact hv.calls c' hc' }

/-- Nothing was requested: the same documents wait, and the same installs are in flight. -/
structure Unrequested (st st' : State) : Prop where
  waiters : st'.waiters = st.waiters
  pending : st'.gateway.pending = st.gateway.pending
  callbacks : st'.gateway.callbacks = st.gateway.callbacks
  loop : st'.loop = st.loop

theorem Asked.unrequested (hv : Asked s w v) : Unrequested w.state v.state := by
  obtain ⟨i, hi⟩ := hv.state
  rw [hi]
  exact ⟨rfl, rfl, rfl, rfl⟩

theorem blind_unrequested (st : State) :
    Blind s [.features] [.features, .options] fun v => Unrequested st v.state := by
  refine Blind.of_state (J := Unrequested st) fun p hp st₁ st₂ hst h => ?_
  cases hst with
  | features => exact { h with }
  | _ => simp at hp

/-! ## The rule -/

/-- What becomes of a document that attaches with a managed filetype that has a language, and of the
world: what is known about the filetype before, whether the grammar is registered and whether it is
bundled, and whether an installer is to be used decide it. -/
structure Decided (s : Surroundings σ) (document : Handle) (filetype l : String) (flags : Flags)
    (known : Availability) (ready bundled use : Bool) (w : World σ) (r : Option Availability)
    (v : World σ) : Prop where
  /-- The answer is what is known about the filetype afterwards. -/
  answer : r = Assoc.get? v.state.registry filetype
  available : r = some .available ↔ known = .available ∨ known = .unknown ∧
    (ready ∧ ¬ (bundled ∧ use) ∨ bundled ∧ ¬ use)
  otherwise : r ≠ some .available → r = some known
  /-- Once everything was asked, the entry is set and the features are shown, and that is all. -/
  started : r = some .available → ∃ u, Asked s w u ∧
    v = ((Features.start s document l flags).run
      { u with state := { u.state with registry := u.state.registry.set filetype .available } }).2
  unstarted : r ≠ some .available → Unshown w v
  /-- Once everything was asked, the document is put on the list and an install is requested; if
  there can be none, no document waits any more. -/
  installing : r = some .unknown → use → ∃ u t v', Asked s w u ∧
    (Gateway.install s l (some .enablement)).run
      { u with state := u.state.enqueue l ⟨document, filetype⟩ } = (.ok t, v') ∧
    v = if t.isSome then v' else { v' with state := v'.state.dequeue l }
  idle : ¬ (r = some .unknown ∧ use) → Unrequested w.state v.state

/-- When documents are started. -/
theorem Decision.of_shows {ready bundled use : Bool} :
    (Decision.of known ready bundled use = .start ∨
        Decision.of known ready bundled use = .fallBack) ↔
      known = .available ∨ known = .unknown ∧ (ready ∧ ¬ (bundled ∧ use) ∨ bundled ∧ ¬ use) := by
  cases known <;> cases ready <;> cases bundled <;> cases use <;> decide

/-- Otherwise they are not. -/
theorem Decision.not_shows {ready bundled use : Bool}
    (h : Decision.of known ready bundled use = .install ∨
      Decision.of known ready bundled use = .leave) :
    ¬ (known = .available ∨ known = .unknown ∧ (ready ∧ ¬ (bundled ∧ use) ∨ bundled ∧ ¬ use)) := by
  intro hrule
  rcases Decision.of_shows.mpr hrule with hd | hd <;> rw [hd] at h <;> exact h.elim nofun nofun

/-- Documents are left alone only if there is nothing to start and nothing to install. -/
theorem Decision.of_eq_leave {ready bundled use : Bool}
    (h : Decision.of known ready bundled use = .leave) :
    known ≠ .available ∧ ¬ (known = .unknown ∧ use) := by
  revert h
  cases known <;> cases ready <;> cases bundled <;> cases use <;> simp [Decision.of]

theorem CarriedOut.decided {ready bundled use : Bool} {r : Option Availability}
    (h : CarriedOut s document filetype
      ⟨l, flags, known, Decision.of known ready bundled use⟩ w r v)
    (hknown : Assoc.get? w.state.registry filetype = some known) :
    Decided s document filetype l flags known ready bundled use w r v := by
  cases h with
  | @start u hd hu =>
    have entry : Assoc.get? (shown s document filetype l flags u).state.registry filetype =
        some .available :=
      Features.keeps_start (blind_entry (by simp)) document l flags _
        (Assoc.get?_put_self u.state.registry filetype _)
    have unrequested : Unrequested w.state (shown s document filetype l flags u).state :=
      Features.keeps_start (blind_unrequested w.state) document l flags _ { hu.unrequested with }
    exact
      { answer := entry.symm
        available := iff_of_true rfl (Decision.of_shows.mp hd)
        otherwise := fun h => absurd rfl h
        started := fun _ => ⟨u, hu, rfl⟩
        unstarted := fun h => absurd rfl h
        installing := nofun
        idle := fun _ => unrequested }
  | @install u hd hu =>
    obtain ⟨rfl, huse⟩ := Decision.of_eq_install hd
    obtain ⟨t, v, run, hv⟩ := run_installFor (s := s) document filetype l u
    have unshown : Unshown w ((installFor s document filetype l).run u).2 :=
      keeps_installFor (blind_unshown.mono (by simp) (by simp))
        (Gateway.keeps_dispatch (blind_unshown.mono (by simp) (by simp)) _ _) document filetype u
        hu.unshown
    exact
      { answer := by rw [unshown.registry, hknown]
        available := iff_of_false nofun (Decision.not_shows (.inl hd))
        otherwise := fun _ => rfl
        started := nofun
        unstarted := fun _ => unshown
        installing := fun _ _ => ⟨u, t, v, hu, run, by rw [hv]⟩
        idle := fun h => absurd ⟨rfl, huse⟩ h }
  | leave hd hu =>
    obtain ⟨hnot, hidle⟩ := Decision.of_eq_leave hd
    exact
      { answer := by rw [hu.unshown.registry, hknown]
        available := iff_of_false (fun h => hnot (Option.some.inj h)) (Decision.not_shows (.inr hd))
        otherwise := fun _ => rfl
        started := fun h => absurd (Option.some.inj h) hnot
        unstarted := fun _ => hu.unshown
        installing := fun h huse => absurd ⟨Option.some.inj h, huse⟩ hidle
        idle := fun _ => hu.unrequested }

/-! ## The result -/

section Running

variable (hinitialized : w.state.initialized = true)

include hinitialized

/-- Nothing is done for a filetype that has no language. -/
theorem run_attach_unnamed (document : Handle)
    (hknown : Assoc.get? w.state.registry filetype = some known)
    (hl : named s filetype w = none) :
    ∃ k, (attach s document filetype).run w =
      (.ok none, { afterCall s (.languageOf filetype) w with log := k }) := by
  obtain ⟨k, run⟩ := run_languageFor_of_unnamed hl
  exact ⟨k, run_attach_of_unnamed (run_prepare_of_initialized hinitialized) document hknown run⟩

/-- For one that has a language the plan is made by asking, and carried out. -/
theorem run_attach_named (document : Handle)
    (hknown : Assoc.get? w.state.registry filetype = some known)
    (hl : named s filetype w = some l) (hx : w.state.settings = some x) :
    let flags := x.resolve (some l)
    let u := afterCall s (.languageOf filetype) w
    ∃ r v, (attach s document filetype).run w = (.ok r, v) ∧
      CarriedOut s document filetype ⟨l, flags, known, Decision.of known
        (registers s l ((mayInstall s flags).run u).2) (w.state.bundled.contains l)
        (flags.autoInstall && findsInstaller s u)⟩ w r v := by
  intro flags u
  let q : Plan := ⟨l, flags, known, Decision.of known
    (registers s l ((mayInstall s flags).run u).2) (w.state.bundled.contains l)
    (flags.autoInstall && findsInstaller s u)⟩
  have asked : Asked s w u :=
    blind_asked.ask (.languageOf filetype) (by simp [Call.area]) w (.refl w)
  have attached : Leads (fun v => v = u) (attachManaged s document filetype l known)
      (fun r v => CarriedOut s document filetype q w r v) fun _ => False := by
    refine (leads_planManaged_asked asked hx l known).bind fun p => Leads.assume fun hp => ?_
    rw [hp]
    exact leads_carryOut_carriedOut document filetype q
  obtain ⟨r, hr, outcome⟩ := attached.exists_ok (w := u) rfl
  refine ⟨r, _, ?_, outcome⟩
  exact (run_attach_of_named (run_prepare_of_initialized hinitialized) document hknown
    (run_languageFor_of_named hl)).trans (Prod.ext hr rfl)

end Running

/-- **Attaching decides, and touches nothing else.** In a program that is set up, attaching a
document ends with an answer.

* If the filetype is not managed or has no language, there is none, and nothing is done but to ask
  for the language.
* Otherwise it is what is known about the filetype afterwards, as `Decided` says: features are shown
  if and only if the filetype is available then, and an install is requested for the document if and
  only if nothing is known about the filetype still and an installer may be used.
* In any case other filetypes and documents are left alone. An option keeps its value unless
  features were shown and it belongs to the document or to the view that the editor named for it. -/
theorem attach_decides {w₀ : World σ} (hw₀ : Initial w₀) {steps : List (Step σ)} {b : Bool}
    (hrun : (run s steps w₀).setRunning b = w) (hinitialized : w.state.initialized = true)
    (document : Handle) (filetype : String) :
    ∃ r v, (attach s document filetype).run w = (.ok r, v) ∧
      (Assoc.get? w.state.registry filetype = none ∨ named s filetype w = none →
        r = none ∧ v.state = w.state ∧ ∀ c, .asked c ∈ news w v → c = .languageOf filetype) ∧
      (∀ known l, Assoc.get? w.state.registry filetype = some known →
        named s filetype w = some l → ∃ x, w.state.settings = some x ∧
          let flags := x.resolve (some l)
          let u := afterCall s (.languageOf filetype) w
          Decided s document filetype l flags known
            (registers s l ((mayInstall s flags).run u).2) (w.state.bundled.contains l)
            (flags.autoInstall && findsInstaller s u) w r v) ∧
      Apart document filetype w.state v.state ∧
      ∀ value, Framed s value → ∀ o : Slot,
        r ≠ some .available ∨ ¬ o.Within document (extend s [] w v) →
        value v.outside o = value w.outside o := by
  have sane : Sane w := hrun ▸ sane_setRunning.mpr (sane_run hw₀ steps)
  cases hknown : Assoc.get? w.state.registry filetype with
  | none =>
    exact ⟨none, w, run_attach_of_unmanaged (run_prepare_of_initialized hinitialized) document hknown,
      fun _ => ⟨rfl, rfl, by simp⟩, nofun, .refl w.state, fun _ _ _ _ => rfl⟩
  | some known =>
    obtain ⟨x, hx⟩ := Option.ne_none_iff_exists'.mp (sane.grounded.known (registry_ne_nil hknown))
    cases hl : named s filetype w with
    | none =>
      obtain ⟨k, run⟩ := run_attach_unnamed hinitialized document hknown hl
      refine ⟨none, _, run, fun _ => ⟨rfl, rfl, fun c hc => ?_⟩, nofun, .refl w.state,
        fun value hvalue o _ => hvalue _ _ o nofun⟩
      have asked : news w { afterCall s (.languageOf filetype) w with log := k } =
          [.asked (.languageOf filetype)] := news_of_trace rfl
      rw [asked] at hc
      exact Event.asked.inj (List.mem_singleton.mp hc)
    | some l =>
      obtain ⟨r, v, run, outcome⟩ := run_attach_named hinitialized document hknown hl hx
      have decided := outcome.decided hknown
      have confined := outcome.confined sane.tidy
      refine ⟨r, v, run, fun h => (h.elim nofun nofun), fun known' l' hknown' hl' => ?_,
        outcome.apart, fun value hvalue o ho => hvalue.unwritten confined.follows fun hmem => ?_⟩
      · obtain rfl := Option.some.inj hknown'
        obtain rfl := Option.some.inj hl'
        exact ⟨x, hx, decided⟩
      · rcases ho with hr | ho
        · exact not_mem_written (decided.unstarted hr).calls hmem
        · exact ho (confined.writes o hmem)

theorem rustlessEditor_framed : Framed rustlessEditor Prod.fst := by
  intro c x o hc
  cases c with
  | setOption scope handle name v =>
    exact Function.update_of_ne (fun e => hc (congrArg some e.symm)) v x.1
  | _ => rfl

/-- A document of rust is attached while one of lua shows features. Nothing is known about rust
still, so an install is requested; the other document and all options stay as they are. -/
theorem attach_decides_rustless :
    let s := rustlessEditor
    let lua : Step ((Slot → Value) × (Handle → Option String)) :=
      .call true (.filetypeEvent (some (.number 1)) (some "lua"))
    let w := (run s [lua] rustlessWorld).setRunning true
    w.state.initialized = true ∧ w.state.features.isActive (.number 1) = true ∧
      ∃ v, (attach s (.number 2) "rust").run w = (.ok (some .unknown), v) ∧
        v.state.features = w.state.features ∧ v.outside.1 = w.outside.1 ∧
        ∃ u t v', Asked s w u ∧ (Gateway.install s "rust" (some .enablement)).run
            { u with state := u.state.enqueue "rust" ⟨.number 2, "rust"⟩ } = (.ok t, v') ∧
          v = if t.isSome then v' else { v' with state := v'.state.dequeue "rust" } := by
  intro s lua w
  have initialized : w.state.initialized = true := by decide +kernel
  have answer : ((attach s (.number 2) "rust").run w).1.toOption = some (some .unknown) := by
    decide +kernel
  have allowed : (w.state.settings.all fun x => (x.resolve (some "rust")).autoInstall) = true := by
    decide +kernel
  have found : findsInstaller s (afterCall s (.languageOf "rust") w) = true := by decide +kernel
  refine ⟨initialized, by decide +kernel, ?_⟩
  obtain ⟨r, v, run, -, decided, -, options⟩ := attach_decides (⟨rfl, rfl⟩ : Initial rustlessWorld)
    (rfl : (run s [lua] rustlessWorld).setRunning true = w) initialized (.number 2) "rust"
  rw [run] at answer
  obtain rfl : r = some .unknown := Option.some.inj answer
  obtain ⟨x, hx, decided⟩ := decided .unknown "rust" (by decide +kernel) (by decide +kernel)
  rw [hx] at allowed
  refine ⟨v, run, (decided.unstarted nofun).features, funext fun o => ?_,
    decided.installing rfl (Bool.and_eq_true_iff.mpr ⟨allowed, found⟩)⟩
  exact options Prod.fst rustlessEditor_framed o (.inl nofun)

end Enablement

end TreeFeatures
