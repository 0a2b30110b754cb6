import TreeFeatures.Controller
import TreeFeatures.Proofs.Features.Records
import TreeFeatures.Proofs.Keeps

/-!
# What each operation may touch

`Part` names the parts of the state and `Area` the kinds of calls. A property of worlds is `Blind`
to some parts and areas if neither a change of these parts, nor a call of these areas, nor the log
can make it false. Each operation of the program has a footprint, and keeps every property that is
blind to it:

* showing and hiding features touches the features and makes calls about them (`keeps_start`,
  `keeps_stop`; `leads_stop_by` says more about hiding, piece by piece);
* setting up touches settings, registry and bundled languages (`keeps_settings`, `keeps_prepare`);
* looking for an installer touches what is known about it (`keeps_isPresent`), a request for an
  install also tasks in flight and callbacks (`keeps_dispatch`).

What attaching documents and the ends of installs touch is put together from these in
`Enablement.Plan` and `Install.Advance`.
-/

namespace TreeFeatures

open Act

/-- The parts of the state. -/
inductive Part where
  | settings
  | registry
  | bundled
  | initialized
  | autoAttach
  | features
  | waiters
  | installer
  | pending
  | callbacks
  | errors
  | isRunning
  | tasks
  | waits
  | queue
  deriving DecidableEq

/-- A change of one part of the state. -/
inductive State.Write : Part → State → State → Prop
  /-- Settings that are known stay known. -/
  | settings (st : State) (x : Settings) : Write .settings st { st with settings := some x }
  | registry (st : State) (x : Registry) : Write .registry st { st with registry := x }
  | bundled (st : State) (x : List String) : Write .bundled st { st with bundled := x }
  | initialized (st : State) (x : Bool) : Write .initialized st { st with initialized := x }
  | autoAttach (st : State) (x : Bool) : Write .autoAttach st { st with autoAttach := x }
  /-- Records are filed where they belong, and the target values stay. -/
  | features (st : State) (x : Features) (h : st.features.Proceeds x) :
      Write .features st { st with features := x }
  | waiters (st : State) (x : Assoc String (List Waiter)) :
      Write .waiters st { st with waiters := x }
  | installer (st : State) (x : Installer) :
      Write .installer st { st with gateway := { st.gateway with installer := x } }
  | pending (st : State) (x : Assoc String TaskId) :
      Write .pending st { st with gateway := { st.gateway with pending := x } }
  | callbacks (st : State) (x : Assoc String (List Callback)) :
      Write .callbacks st { st with gateway := { st.gateway with callbacks := x } }
  | errors (st : State) (x : Assoc String Report) :
      Write .errors st { st with gateway := { st.gateway with errors := x } }
  | isRunning (st : State) (x : Bool) :
      Write .isRunning st { st with loop := { st.loop with isRunning := x } }
  | tasks (st : State) (x : List Task) :
      Write .tasks st { st with loop := { st.loop with tasks := x } }
  | waits (st : State) (x : List Wait) :
      Write .waits st { st with loop := { st.loop with waits := x } }
  | queue (st : State) (x : List Job) :
      Write .queue st { st with loop := { st.loop with queue := x } }

/-- The kinds of calls. -/
inductive Area where
  /-- The features of documents: queries, highlighting and views. -/
  | features
  /-- The options of views and documents. -/
  | options
  /-- What the editor knows and shows. -/
  | editor
  /-- The search for an installer. -/
  | discovery
  /-- The installer itself. -/
  | installer
  /-- Listeners outside. -/
  | listener
  deriving DecidableEq

/-- The kind of a call. -/
def Call.area : Call → Area
  | .query _ _ | .startHighlighting _ _ | .stopHighlighting _ | .isHighlighting _
  | .viewOf _ => .features
  | .getOption _ _ _ | .setOption _ _ _ _ => .options
  | .filetypes _ | .languageOf _ | .addLanguage _ | .currentDocument | .filetypeOf _
  | .bundledPaths | .isValid _ | .notify _ _ => .editor
  | .findInstaller | .entryPoints _ | .loadEntryPoint _ _ | .makeInstaller _ _ => .discovery
  | .install _ | .collect _ => .installer
  | .tell _ _ _ => .listener

variable {σ : Type} {s : Surroundings σ} {I : World σ → Prop}

/-- Change the features. -/
def World.onFeatures (w : World σ) (f : Features → Features) : World σ :=
  { w with state := { w.state with features := f w.state.features } }

/-- Change the loop. -/
def World.onLoop (w : World σ) (f : Loop → Loop) : World σ :=
  { w with state := { w.state with loop := f w.state.loop } }

/-- Change the gateway. -/
def World.onGateway (w : World σ) (f : Gateway → Gateway) : World σ :=
  { w with state := { w.state with gateway := f w.state.gateway } }

/-- A property that no change of the given parts, no call of the given areas and no entry of the
log makes false. -/
structure Blind (s : Surroundings σ) (parts : List Part) (areas : List Area)
    (I : World σ → Prop) : Prop where
  log : ∀ w l, I w → I { w with log := l }
  write : ∀ p ∈ parts, ∀ w st, State.Write p w.state st → I w → I { w with state := st }
  ask : ∀ c : Call, c.area ∈ areas → ∀ w, I w → I (afterCall s c w)

namespace Blind

variable {parts parts' : List Part} {areas areas' : List Area}

theorem mono (h : Blind s parts areas I) (hp : parts' ⊆ parts) (ha : areas' ⊆ areas) :
    Blind s parts' areas' I :=
  ⟨h.log, fun p hpp => h.write p (hp hpp), fun c hc => h.ask c (ha hc)⟩

theorem and {J : World σ → Prop} (h : Blind s parts areas I) (h' : Blind s parts areas J) :
    Blind s parts areas fun w => I w ∧ J w :=
  ⟨fun w l hw => ⟨h.log w l hw.1, h'.log w l hw.2⟩,
    fun p hp w st hst hw => ⟨h.write p hp w st hst hw.1, h'.write p hp w st hst hw.2⟩,
    fun c hc w hw => ⟨h.ask c hc w hw.1, h'.ask c hc w hw.2⟩⟩

/-- A property of the state alone is blind to all calls. -/
theorem of_state {J : State → Prop}
    (h : ∀ p ∈ parts, ∀ st st', State.Write p st st' → J st → J st') :
    Blind s parts areas fun w => J w.state :=
  ⟨fun _ _ hw => hw, fun p hp w st hst hw => h p hp w.state st hst hw, fun _ _ _ hw => hw⟩

/-- What always holds is blind to everything. -/
theorem always : Blind s parts areas fun _ => True :=
  ⟨fun _ _ _ => trivial, fun _ _ _ _ _ _ => trivial, fun _ _ _ _ => trivial⟩

theorem keeps_note (h : Blind s parts areas I) {level : Level} {channel : Channel} {text : String} :
    Keeps I (note level channel text) :=
  Act.keeps_note h.log

theorem keeps_ask (h : Blind s parts areas I) {c : Call} (hc : c.area ∈ areas) :
    Keeps I (Act.ask s c) :=
  h.ask c hc

theorem keeps_update (h : Blind s parts areas I) {f : State → State} (p : Part) (hp : p ∈ parts)
    (hf : ∀ st, State.Write p st (f st)) : Keeps I (update f) :=
  fun w hw => h.write p hp w _ (hf w.state) hw

end Blind

/-! ## Features -/

/-- Records stay where they belong. -/
theorem blind_tidy {parts : List Part} {areas : List Area} :
    Blind s parts areas fun w => w.state.features.Tidy := by
  refine Blind.of_state (J := fun st => st.features.Tidy) fun p hp st st' hst h => ?_
  cases hst with
  | features _ _ hx => exact hx.tidy h
  | _ => exact h

namespace Features

/-- Whether the answer about a query says that there is one. -/
def provides : Except Fault Value → Bool
  | .ok .null | .error _ => false
  | .ok _ => true

/-- Asking for a query does not fail, and ends as the answer says. -/
theorem leads_hasQuery_of {P E : World σ → Prop} {Q : Bool → World σ → Prop} {language name : String}
    (hask : ∀ w, P w → Q (provides (s.reply (.query language name) w.outside).1)
      (afterCall s (.query language name) w))
    (hlog : ∀ b w l, Q b w → Q b { w with log := l }) :
    Leads P (hasQuery s language name) Q E := by
  refine Leads.bind (Q := fun r => Q (provides r)) (leads_attempt_ask hask) fun r => ?_
  rcases r with f | v
  · exact Leads.bind (Q := fun _ => Q false) (leads_note fun w hw => hlog _ w _ hw) fun _ =>
      leads_pure fun _ hw => hw
  · cases v <;> exact leads_pure fun _ hw => hw

/-- Asking for a query does not fail: without an answer there is none. -/
theorem leads_hasQuery {E : World σ → Prop} (h : Blind s [] [.features] I) (language name : String) :
    Leads I (hasQuery s language name) (fun _ => I) E :=
  leads_hasQuery_of (Q := fun _ => I) (fun w hw => h.ask _ (by simp [Call.area]) w hw) fun _ => h.log

/-- Writing a target makes calls about the option of the record. -/
theorem leads_apply_asking {E : World σ → Prop} {r : Override} {o : Slot} (hname : r.name = o.name)
    (hscope : r.scope = o.scope)
    (hget : ∀ w, I w → I (afterCall s (.getOption o.scope o.handle o.name) w))
    (hset : ∀ w x, I w → I (afterCall s (.setOption o.scope o.handle o.name x) w)) :
    Leads I (r.apply s o.handle)
      (fun x w => I w ∧ (x.1 = r ∨ ∃ current, x.1 = r.capture o.handle current)) E := by
  unfold Override.apply
  rw [hname, hscope]
  refine Leads.bind (Q := fun _ => I) (leads_attempt_ask hget) fun current => ?_
  rcases current with f | current
  · exact leads_pure fun w hw => ⟨hw, .inl rfl⟩
  refine Leads.ite (leads_pure fun w hw => ⟨hw, .inl rfl⟩) ?_
  refine Leads.bind (Q := fun _ => I) (leads_attempt_ask fun w => hset w _) fun _ => ?_
  exact leads_pure fun w hw => ⟨hw, .inr ⟨current, rfl⟩⟩

/-- Writing a target leaves the record as it is, or has it keep the value found. -/
theorem leads_apply_any {E : World σ → Prop} (h : Blind s [] [.options] I) (o : Override)
    (handle : Handle) :
    Leads I (o.apply s handle)
      (fun r w => I w ∧ (r.1 = o ∨ ∃ current, r.1 = o.capture handle current)) E :=
  leads_apply_asking (o := ⟨o.scope, handle, o.name⟩) rfl rfl
    (fun w hw => h.ask _ (by simp [Call.area]) w hw)
    fun w _ hw => h.ask _ (by simp [Call.area]) w hw

/-- Overriding an option has its record write the target, and files the record. It fails if the
write did. -/
theorem leads_override_by {P : World σ → Prop} {Q : Bool → World σ → Prop} {document handle : Handle}
    {name target : String} {scope : Scope}
    (happly : ∀ u, P u → Leads (fun w => w = u)
      (((u.state.features.overrides document).record name scope (.text target) handle).apply s handle)
      (fun x => Q x.2.isOk) (Q false))
    (hfile : ∀ b w r, Q b w →
      (w.state.features.overrides document).Renewed name scope (.text target) handle r →
      Q b (w.onFeatures fun f =>
        f.setOverrides document (Assoc.put (f.overrides document) (name, handle) r)))
    (hlog : ∀ w l, Q true w → Q true { w with log := l }) :
    Leads P (override s document name scope target handle) (fun _ => Q true) (Q false) := by
  refine leads_state_eq.bind fun st => ?_
  rintro u ⟨rfl, hu⟩
  have still : Blind s [] [.options] fun w => w.state = u.state :=
    ⟨fun _ _ h => h, by simp, fun _ _ _ h => h⟩
  refine (((happly u hu).and (leads_apply_any still _ handle)).bind fun x => ?_) u ⟨rfl, rfl⟩
  refine Leads.bind (Q := fun _ => Q x.2.isOk) (leads_update ?_) fun _ => ?_
  · rintro w ⟨hw, hstate, hr⟩
    rw [← hstate] at hr ⊢
    exact hfile _ w x.1 hw hr
  · rcases x.2 with f | (_ | _)
    · exact fun _ hw => hw
    · exact leads_pure fun _ hw => hw
    · exact leads_note fun w hw => hlog w _ hw

/-- Overriding an option files its record. -/
theorem keeps_override_of (h : Blind s [] [.options] I) (document : Handle) {name : String}
    {scope : Scope} {target : String} {handle : Handle}
    (hset : ∀ w r, I w →
      (w.state.features.overrides document).Renewed name scope (.text target) handle r →
      I (w.onFeatures fun f =>
        f.setOverrides document (Assoc.put (f.overrides document) (name, handle) r))) :
    Keeps I (override s document name scope target handle) :=
  (leads_override_by (P := I) (Q := fun _ => I)
    (fun _ hu => (leads_apply_any h _ handle).mono (fun _ hw => hw ▸ hu) (fun _ _ hw => hw.1)
      fun _ hw => hw) (fun _ => hset) h.log).keeps

theorem keeps_override (h : Blind s [] [.options] I) (document : Handle)
    (hset : ∀ w t, I w → I (w.onFeatures fun f => f.setOverrides document t)) (name : String)
    (scope : Scope) (target : String) (handle : Handle) :
    Keeps I (override s document name scope target handle) :=
  keeps_override_of h document fun w _ hw _ => hset w _ hw

/-- Something that is done only if a feature is asked for and the language has the query. -/
theorem leads_whenProvided {P Q E : World σ → Prop} (h : Blind s [] [.features] P) (wanted : Bool)
    (language name : String) {act : Act σ Unit} (hact : Leads P act (fun _ => Q) E)
    (hskip : ∀ w, P w → Q w) : Leads P (whenProvided s wanted language name act) (fun _ => Q) E := by
  unfold whenProvided
  split
  · refine (leads_hasQuery h language name).bind fun b => ?_
    split
    · exact hact
    · exact leads_pure hskip
  · exact leads_pure hskip

/-- Showing features counts the document among the active ones and then overrides options of it
with the targets that it finds. It does not fail. -/
theorem leads_start_targets {P E : World σ → Prop} (h : Blind s [] [.features] I)
    (document : Handle) (hactivate : ∀ w, P w → I (w.onFeatures fun f => f.activate document))
    (hfold : ∀ w, I w → ∀ view,
      Keeps I (override s document "foldmethod" .view w.state.features.targets.foldMethod view) ∧
      Keeps I (override s document "foldexpr" .view w.state.features.targets.foldExpr view))
    (hindent : ∀ w, I w → Keeps I (override s document "indentexpr" .document
      w.state.features.targets.indentExpr document))
    (language : String) (flags : Flags) :
    Leads P (start s document language flags) (fun _ => I) E := by
  refine Leads.bind (Q := fun _ => I) (leads_update hactivate) fun _ => ?_
  refine (leads_whenProvided h _ _ _ ?_ fun _ hw => hw).bind fun _ => ?_
  · exact (h.keeps_ask (by simp [Call.area])).leads.shielded h.log
  refine (leads_whenProvided h _ _ _ ?_ fun _ hw => hw).bind fun _ => ?_
  · refine Leads.shielded (leads_state_eq.bind fun st => ?_) h.log
    rintro w ⟨rfl, hw⟩
    refine Keeps.leads (Keeps.bind (h.keeps_ask (by simp [Call.area])) fun view => ?_) w hw
    exact (hfold w hw view).1.bind fun _ => (hfold w hw view).2
  refine (leads_whenProvided h _ _ _ ?_ fun _ hw => hw).bind fun _ =>
    leads_note fun w hw => h.log w _ hw
  refine Leads.shielded (leads_state_eq.bind fun st => ?_) h.log
  rintro w ⟨rfl, hw⟩
  exact (hindent w hw).leads w hw

/-- The same for what the targets do not matter to. -/
theorem leads_start_by {P E : World σ → Prop} (h : Blind s [] [.features] I) (document : Handle)
    (hactivate : ∀ w, P w → I (w.onFeatures fun f => f.activate document))
    (hfold : ∀ name ∈ ["foldmethod", "foldexpr"], ∀ target view,
      Keeps I (override s document name .view target view))
    (hindent : ∀ target, Keeps I (override s document "indentexpr" .document target document))
    (language : String) (flags : Flags) :
    Leads P (start s document language flags) (fun _ => I) E :=
  leads_start_targets h document hactivate
    (fun _ _ _ => ⟨hfold _ (by simp) _ _, hfold _ (by simp) _ _⟩) (fun _ _ => hindent _) language
    flags

theorem keeps_start_by (h : Blind s [] [.features] I) (document : Handle)
    (hactivate : ∀ w, I w → I (w.onFeatures fun f => f.activate document))
    (hfold : ∀ name ∈ ["foldmethod", "foldexpr"], ∀ target view,
      Keeps I (override s document name .view target view))
    (hindent : ∀ target, Keeps I (override s document "indentexpr" .document target document))
    (language : String) (flags : Flags) : Keeps I (start s document language flags) :=
  (leads_start_by h document hactivate hfold hindent language flags).keeps

/-- Showing features changes only the overrides of the document, after it was counted among the
active ones. -/
theorem leads_start_of {P E : World σ → Prop} (h : Blind s [] [.features, .options] I)
    (document : Handle) (hactivate : ∀ w, P w → I (w.onFeatures fun f => f.activate document))
    (hset : ∀ w t, I w → I (w.onFeatures fun f => f.setOverrides document t)) (language : String)
    (flags : Flags) : Leads P (start s document language flags) (fun _ => I) E := by
  have overridden : ∀ name scope target handle,
      Keeps I (override s document name scope target handle) :=
    keeps_override (h.mono (by simp) (by simp)) document hset
  exact leads_start_by (h.mono (by simp) (by simp)) document hactivate
    (fun _ _ _ _ => overridden _ _ _ _) (fun _ => overridden _ _ _ _) language flags

theorem keeps_start_of (h : Blind s [] [.features, .options] I) (document : Handle)
    (hset : ∀ w t, I w → I (w.onFeatures fun f => f.setOverrides document t)) (language : String)
    (flags : Flags) : Keeps I (start s document language flags) :=
  (leads_start_of h document (fun w hw => hset w _ hw) hset language flags).keeps

/-- Showing features makes changes that the program makes. -/
theorem keeps_start (h : Blind s [.features] [.features, .options] I) (document : Handle)
    (language : String) (flags : Flags) : Keeps I (start s document language flags) := by
  have proceeds : ∀ w (f : Features → Features), I w →
      w.state.features.Proceeds (f w.state.features) → I (w.onFeatures f) := fun w f hw hf =>
    h.write .features (by simp) w _ (.features w.state _ hf) hw
  have overridden : ∀ (o : Slot) (target : String), o.scope = scopeOf o.name →
      Keeps I (override s document o.name o.scope target o.handle) := fun o target ho =>
    keeps_override_of (h.mono (by simp) (by simp)) document fun w _ hw hr =>
      proceeds w _ hw (.override _ document ho hr)
  refine keeps_start_by (h.mono (by simp) (by simp)) document
    (fun w hw => proceeds w _ hw (.activate _ document)) (fun name hname target view => ?_)
    (fun target => overridden ⟨.document, document, "indentexpr"⟩ target rfl) language flags
  refine overridden ⟨.view, view, name⟩ target ?_
  rcases List.mem_cons.mp hname with rfl | hname
  · rfl
  · rw [List.mem_singleton.mp hname]
    rfl

/-- Putting an option back does not fail. -/
theorem leads_restore_any {E : World σ → Prop} (h : Blind s [] [.options] I) (document : Handle)
    (o : Override) : Leads I (restore s document o) (fun _ => I) E := by
  refine Leads.bind (Q := fun _ => I) ?_ fun r => ?_
  · unfold Override.revert
    split
    · exact leads_pure fun _ hw => hw
    · refine (h.keeps_ask (by simp [Call.area])).leads_attempt.bind fun r => ?_
      rcases r with f | _ <;> exact leads_pure fun _ hw => hw
  · rcases r with ⟨_, f | _⟩
    · exact leads_note fun w hw => h.log w _ hw
    · exact leads_pure fun _ hw => hw

theorem keeps_restore (h : Blind s [] [.options] I) (document : Handle) (o : Override) :
    Keeps I (restore s document o) :=
  (leads_restore_any h document o).keeps

theorem leads_hideHighlights (h : Blind s [] [.features] I) (document : Handle)
    {E : World σ → Prop} : Leads I (hideHighlights s document) (fun _ => I) E := by
  refine Leads.shielded (Keeps.leads ?_) h.log
  refine (h.keeps_ask (by simp [Call.area])).bind fun shown => ?_
  exact Keeps.ite (h.keeps_ask (by simp [Call.area])) keeps_pure

/-- Hiding features forgets the document, hides its highlights, and puts its overrides back if it
showed any features. -/
theorem leads_stop_by {P Q E : World σ → Prop} (h : Blind s [] [.features] P) (document : Handle)
    {w : World σ} (hdrop : P (w.onFeatures fun f => f.drop document))
    (hrestore : w.state.features.isActive document = true →
      Leads P ((w.state.features.overrides document).forM fun e => restore s document e.2)
        (fun _ => Q) E)
    (hidle : w.state.features.isActive document = false → ∀ v, P v → Q v)
    (hlog : ∀ v l, Q v → Q { v with log := l }) :
    Leads (fun v => v = w) (stop s document) (fun _ => Q) E := by
  refine leads_state_eq.bind fun st => ?_
  refine Leads.bind (Q := fun _ v => st = w.state ∧ P v) (leads_update ?_) fun _ =>
    Leads.assume fun hst => ?_
  · rintro v ⟨rfl, rfl⟩
    exact ⟨rfl, hdrop⟩
  subst hst
  refine (leads_hideHighlights h document).bind fun _ => ?_
  split
  · next hactive => exact (hrestore hactive).bind fun _ => leads_note fun u hu => hlog u _ hu
  · next hactive => exact leads_pure (hidle (by simpa using hactive))

/-- Hiding features forgets the overrides of the document, and nothing else. It does not fail. -/
theorem leads_stop_of {E : World σ → Prop} (h : Blind s [] [.features, .options] I)
    (document : Handle) (hdrop : ∀ w, I w → I (w.onFeatures fun f => f.drop document)) :
    Leads I (stop s document) (fun _ => I) E := by
  intro w hw
  refine leads_stop_by (Q := I) (h.mono (by simp) (by simp)) document (hdrop w hw)
    (fun _ => ?_) (fun _ _ hv => hv) h.log w rfl
  exact Leads.forM (J := fun _ => I) fun e _ =>
    leads_restore_any (h.mono (by simp) (by simp)) document e.2

theorem keeps_stop_of (h : Blind s [] [.features, .options] I) (document : Handle)
    (hdrop : ∀ w, I w → I (w.onFeatures fun f => f.drop document)) :
    Keeps I (stop s document) :=
  (leads_stop_of h document hdrop).keeps

theorem keeps_stop (h : Blind s [.features] [.features, .options] I) (document : Handle) :
    Keeps I (stop s document) :=
  keeps_stop_of (h.mono (by simp) (by simp)) document
    fun w => h.write .features (by simp) w _ (.features w.state _ (.drop _ document))

end Features

/-! ## Setting up -/

namespace Enablement

theorem keeps_keepSettings (h : Blind s [.settings] [] I) (x : Settings) :
    Keeps I (keepSettings (σ := σ) x) :=
  h.keeps_update .settings (by simp) fun st => .settings st _

theorem keeps_goBy (h : Blind s [.settings] [] I) (loaded : Except Fault Settings) :
    Keeps I (goBy (σ := σ) loaded) := by
  rcases loaded with f | x
  · cases f with
    | report r =>
      exact h.keeps_note.bind fun _ => (keeps_keepSettings h _).bind fun _ => keeps_pure
    | _ => exact keeps_fail
  · exact (keeps_keepSettings h x).bind fun _ => keeps_pure

theorem keeps_settings (h : Blind s [.settings] [] I) : Keeps I (settings s) := by
  refine keeps_state.bind fun st => ?_
  cases st.settings with
  | some x => exact keeps_pure
  | none =>
    exact keeps_machine.bind fun m => (keeps_noteAll h.log).bind fun _ => keeps_goBy h _

theorem keeps_resolve (h : Blind s [.settings] [] I) (language : Option String) :
    Keeps I (resolve s language) :=
  (keeps_settings h).bind fun _ => keeps_pure

/-- Settings that are known are not loaded. -/
theorem run_settings {w : World σ} {x : Settings} (hx : w.state.settings = some x) :
    (settings s).run w = (.ok x, w) := by
  unfold settings
  rw [run_bind_of_ok _ (run_state w), hx]
  rfl

theorem run_resolve {w : World σ} {x : Settings} (hx : w.state.settings = some x)
    (language : Option String) : (resolve s language).run w = (.ok (x.resolve language), w) := by
  unfold resolve
  rw [run_bind_of_ok _ (run_settings hx)]
  rfl

/-- Setting up again does nothing. -/
theorem run_prepare_of_initialized {w : World σ} (h : w.state.initialized = true) :
    (prepare s).run w = (.ok false, w) := by
  rw [prepare, run_bind_of_ok _ (run_state w), if_pos h]
  rfl

/-- Settings that are known can be asked for. -/
theorem leads_settings_of_known {E : World σ → Prop} (h : ∀ w, I w → w.state.settings ≠ none) :
    Leads I (settings s) (fun _ => I) E := by
  intro w hw
  obtain ⟨x, hx⟩ := Option.ne_none_iff_exists'.mp (h w hw)
  rw [run_settings hx]
  exact hw

theorem leads_resolve_of_known {E : World σ → Prop} (h : ∀ w, I w → w.state.settings ≠ none)
    (language : Option String) : Leads I (resolve s language) (fun _ => I) E :=
  (leads_settings_of_known h).bind fun _ => leads_pure fun _ hw => hw

theorem keeps_setSettings (h : Blind s [.settings] [] I) (x : Settings) :
    Keeps I (setSettings (σ := σ) x) := by
  refine (keeps_keepSettings h x).bind fun _ => ?_
  exact keeps_state.bind fun st => Keeps.ite h.keeps_note keeps_pure

/-- What setting up may touch. -/
abbrev setupParts : List Part := [.settings, .registry, .bundled, .initialized]

/-- Seeding asks for filetypes and brings them in. -/
theorem leads_seed {E : World σ → Prop} (h : Blind s [] [.editor] I)
    (hseed : ∀ w answers, I w →
      I { w with state := { w.state with registry := (w.state.registry.seed answers).registry } })
    (languages : List String) : Leads I (seed s languages) (fun _ => I) E := by
  refine Leads.bind (Q := fun _ => I) (Leads.mapM fun l _ => ?_) fun answers => ?_
  · exact (h.keeps_ask (by simp [Call.area])).leads_attempt.bind fun _ => leads_pure fun _ hw => hw
  · refine leads_state_eq.bind fun st => ?_
    refine Leads.bind (Q := fun _ w => st = w.state ∧ I w)
      (fun w hw => ⟨hw.1, h.log w _ hw.2⟩) fun _ => leads_update fun w hw => ?_
    obtain ⟨rfl, hw⟩ := hw
    exact hseed w answers hw

theorem leads_findBundled {E : World σ → Prop} (h : Blind s [.bundled] [.editor] I) :
    Leads I (findBundled s) (fun _ => I) E := by
  have noted : ∀ level channel text, Leads I (note level channel text) (fun _ => I) E :=
    fun _ _ _ => leads_note fun w hw => h.log w _ hw
  refine Leads.bind (Q := fun _ => I) ?_ fun languages => ?_
  · refine (h.keeps_ask (by simp [Call.area])).leads_attempt.bind fun r => ?_
    rcases r with f | paths
    · exact (noted _ _ _).bind fun _ => leads_pure fun _ hw => hw
    · exact leads_pure fun _ hw => hw
  · refine Leads.bind (Q := fun _ => I) (fun w hw => h.log w _ hw) fun _ => ?_
    exact leads_update fun w hw => h.write .bundled (by simp) w _ (.bundled w.state _) hw

/-- Setting up registry and bundled languages is seeding, next to things that matter less. -/
theorem leads_populate {P E : World σ → Prop} (h : Blind s [.bundled] [.editor] I)
    {parsers : List String} (hseed : Leads P (seed s parsers) (fun _ => I) E) :
    Leads P (populate s parsers) (fun _ => I) E := by
  refine hseed.bind fun _ => (leads_findBundled h).bind fun _ => leads_state_any.bind fun st => ?_
  exact leads_note fun w hw => h.log w _ hw

/-- Setting up does nothing if that was done before; otherwise it asks for the settings, which may
fail, and then brings in filetypes, next to things that matter less. -/
theorem leads_prepare_of {P K J E : World σ → Prop} (h : Blind s [.bundled] [.editor] J)
    (hstart : ∀ w, P w → w.state.initialized = false →
      K { w with state := { w.state with initialized := true } })
    (hsettings : Leads K (settings s) (fun _ => J) E)
    (hseed : ∀ w answers, J w →
      J { w with state := { w.state with registry := (w.state.registry.seed answers).registry } }) :
    Leads P (prepare s)
      (fun fresh w => if fresh then J w else P w ∧ w.state.initialized = true) E := by
  refine leads_state_eq.bind fun st => ?_
  split
  · next hi =>
    refine leads_pure fun w hw => ?_
    obtain ⟨rfl, hw⟩ := hw
    exact ⟨hw, hi⟩
  · next hi =>
    refine (leads_update (Q := K) fun w hw => ?_).bind fun _ => ?_
    · obtain ⟨rfl, hw⟩ := hw
      exact hstart w hw (Bool.eq_false_iff.mpr hi)
    refine hsettings.bind fun x => ?_
    refine (leads_populate h ?_).bind fun _ => leads_pure fun _ hw => hw
    exact leads_seed (h.mono (by simp) (by simp)) hseed x.parsers

/-- The same for what the settings do not matter to. -/
theorem leads_prepare_by {P J : World σ → Prop} (h : Blind s [.settings, .bundled] [.editor] J)
    (hstart : ∀ w, P w → w.state.initialized = false →
      J { w with state := { w.state with initialized := true } })
    (hseed : ∀ w answers, J w →
      J { w with state := { w.state with registry := (w.state.registry.seed answers).registry } }) :
    Leads P (prepare s)
      (fun fresh w => if fresh then J w else P w ∧ w.state.initialized = true) J :=
  leads_prepare_of (h.mono (by simp) (by simp)) hstart
    (keeps_settings (h.mono (by simp) (by simp))).leads hseed

theorem keeps_prepare (h : Blind s setupParts [.editor] I) : Keeps I (prepare s) := by
  refine Leads.keeps ((leads_prepare_by (P := I) (J := I) (h.mono (by simp) (by simp))
    (fun w hw _ => ?_) fun w answers hw => ?_).weaken fun fresh w hw => ?_)
  · exact h.write .initialized (by simp) w _ (.initialized w.state true) hw
  · exact h.write .registry (by simp) w _ (.registry w.state _) hw
  · cases fresh with
    | true => exact hw
    | false => exact hw.1

end Enablement

/-! ## Installs -/

namespace Discovery

/-- Trying the registered installers loads some of them and makes them. -/
theorem keeps_firstOf (hlog : ∀ w l, I w → I { w with log := l })
    (hload : ∀ index name, Keeps I (Act.ask s (.loadEntryPoint index name)))
    (hmake : ∀ index name, Keeps I (Act.ask s (.makeInstaller index name)))
    (wanted : Option String) (index : Nat) (names : List String) :
    Keeps I (firstOf s wanted index names) := by
  induction names generalizing index with
  | nil => exact keeps_pure
  | cons name names ih =>
    refine Keeps.ite (Keeps.bind ?_ fun r => ?_) (ih (index + 1))
    · exact ((hload index name).bind fun _ => hmake index name).attempt
    · rcases r with f | v
      · exact (keeps_note hlog).bind fun _ => ih (index + 1)
      · exact (keeps_note hlog).bind fun _ => keeps_pure

theorem keeps_find (h : Blind s [] [.discovery] I) (search : Search) :
    Keeps I (find s search) := by
  cases search with
  | configured => exact h.keeps_ask (by simp [Call.area])
  | registered =>
    refine Keeps.bind ?_ fun _ => keeps_pure
    refine Keeps.bind (h.keeps_ask (by simp [Call.area])).attempt fun r => ?_
    rcases r with f | names
    · exact h.keeps_note.bind fun _ => keeps_pure
    · exact keeps_firstOf h.log (fun _ _ => h.keeps_ask (by simp [Call.area]))
        (fun _ _ => h.keeps_ask (by simp [Call.area])) none 0 names

end Discovery

namespace Gateway

theorem keeps_isPresent (h : Blind s [.installer] [.discovery] I) : Keeps I (isPresent s) := by
  have hd : Blind s [] [.discovery] I := h.mono (by simp) (by simp)
  have remember : ∀ i, Keeps I (remember i) := fun i =>
    h.keeps_update .installer (by simp) fun st => .installer st _
  refine keeps_state.bind fun st => ?_
  cases st.gateway.installer with
  | present => exact keeps_pure
  | missing r => exact keeps_pure
  | unsought search =>
    refine Keeps.bind (Discovery.keeps_find hd search).attempt fun r => ?_
    rcases r with f | (_ | _)
    · refine h.keeps_note.bind fun _ => ?_
      exact (remember _).bind fun _ => h.keeps_note.bind fun _ => keeps_pure
    · exact (remember _).bind fun _ => h.keeps_note.bind fun _ => keeps_pure
    · exact (remember _).bind fun _ => keeps_pure

theorem listenAll_eq (g : Gateway) (callback : Option Callback) (languages : List String) :
    g.listenAll callback languages =
      { g with callbacks := (g.listenAll callback languages).callbacks } := by
  cases callback with
  | none => rfl
  | some c =>
    induction languages generalizing g with
    | nil => rfl
    | cons l ls ih => exact ih (g.listen c l)

/-- What a request for an install may touch. -/
abbrev requestParts : List Part := [.installer, .pending, .callbacks, .tasks, .queue]

theorem keeps_launch (h : Blind s [.pending, .tasks, .queue] [] I) (languages : List String) :
    Keeps I (launch (σ := σ) languages) := by
  refine keeps_state.bind fun st => Keeps.bind (keeps_update fun w hw => ?_) fun _ =>
    h.keeps_note.bind fun _ => keeps_pure
  -- the update changes three parts, one after the other
  have h₁ := h.write .tasks (by simp) w _ (.tasks w.state (w.state.loop.create languages).tasks) hw
  have h₂ := h.write .queue (by simp) _ _ (.queue _ (w.state.loop.create languages).queue) h₁
  exact h.write .pending (by simp) (w.onLoop fun l => l.create languages) _
    (.pending _ (w.state.gateway.assign languages st.loop.tasks.length).pending) h₂

theorem keeps_dispatch (h : Blind s requestParts [.discovery] I) (languages : List String)
    (callback : Option Callback) : Keeps I (dispatch s languages callback) := by
  unfold dispatch
  split
  · exact keeps_pure
  · refine (keeps_isPresent (h.mono (by simp) (by simp))).bind fun present => ?_
    refine Keeps.ite ?_ keeps_pure
    refine keeps_state.bind fun st => Keeps.ite ?_ (h.keeps_note.bind fun _ => keeps_pure)
    refine Keeps.bind (h.keeps_update .callbacks (by simp) fun st => ?_) fun _ => ?_
    · rw [listenAll_eq]
      exact .callbacks st _
    refine keeps_state.bind fun st => ?_
    dsimp only
    split
    · exact h.keeps_note.bind fun _ => keeps_pure
    · exact keeps_launch (h.mono (by simp) (by simp)) _

end Gateway

end TreeFeatures
