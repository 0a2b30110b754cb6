import TreeFeatures.Proofs.Enablement.Forecast

/-!
# The same event twice

A document gets a filetype, and then the same filetype again. As long as the options of the editor
behave as a store and its other answers do not change, the second event does nothing: whatever the
first one did, it left the program in a state in which the same is not to be done again.

* `InForce`: an option was overridden with its target; `run_override_inForce`: overriding it again
  does nothing. `Showing` is the same for all features of a document.
* `Silent`: nothing happened that matters, and no option was written.
* `leads_start_showing`, `leads_start_silent`: starting a document, and starting it again.
* `State.install_install`: having a language installed twice for a document is having it installed
  once.
* `Done`: what was done for a document by a plan; `Repeats`: all that the second event depends on.
  `leads_attach_repeats`, `leads_attach_silent`: the first event brings it about, and the second one
  does nothing.
* `event_twice`: the result.
-/

namespace TreeFeatures

open Act

variable {σ : Type} {s : Surroundings σ} {K : σ → Prop} {a : Answers}
  {value : σ → Slot → Value} {lit : σ → Handle → Option String} {E : World σ → Prop}

/-! ## Nothing that matters -/

/-- Nothing happened since a world that matters: the state, the options and the highlighting are the
same, no option was written, and the answers do not change. -/
structure Silent (K : σ → Prop) (value : σ → Slot → Value) (lit : σ → Handle → Option String)
    (w v : World σ) : Prop where
  steady : K v.outside
  state : v.state = w.state
  options : value v.outside = value w.outside
  highlighting : lit v.outside = lit w.outside
  trace : w.trace <:+ v.trace
  unwritten : written w v = []

theorem Silent.refl {w : World σ} (hw : K w.outside) : Silent K value lit w w :=
  ⟨hw, rfl, rfl, rfl, List.suffix_rfl, written_self w⟩

/-- A change of the state that changes nothing. -/
theorem Silent.update {w v : World σ} (h : Silent K value lit w v) {f : State → State}
    (hf : f w.state = w.state) : Silent K value lit w { v with state := f v.state } :=
  { h with
    state := by
      show f v.state = w.state
      rw [h.state, hf] }

section Silent

variable (hK : Predictable s K a value lit) {w v : World σ}

include hK

theorem Silent.ask_of (h : Silent K value lit w v) {c : Call} (hc : c.written? = none)
    (hlit : lit (s.reply c v.outside).2 = lit v.outside) :
    Silent K value lit w (afterCall s c v) where
  steady := hK.stays c _ h.steady
  state := h.state
  options := (hK.unwritten c _ h.steady hc).trans h.options
  highlighting := hlit.trans h.highlighting
  trace := h.trace.trans (List.suffix_cons _ _)
  unwritten := by
    rw [written_cons h.trace (e := .asked c) rfl, h.unwritten, Event.written?, hc]
    rfl

theorem Silent.ask (h : Silent K value lit w v) {c : Call} (hc : c.written? = none)
    (hlit : ∀ d, ¬ c.Lights d) : Silent K value lit w (afterCall s c v) :=
  h.ask_of hK hc (hK.unlit c _ h.steady hlit)

theorem blind_silent : Blind s [] [.editor] (Silent K value lit w) where
  log _ _ h := { h with }
  write _ hp := by simp at hp
  ask c hc v h := by
    have editor : c.area = .editor := List.mem_singleton.mp hc
    exact h.ask hK (Call.written?_of_area_ne (by simp [editor]))
      fun d => Call.not_lights_of_area_ne (by simp [editor])

theorem calm_silent : Calm s K (Silent K value lit w) where
  steady _ h := h.steady
  log _ _ h := { h with }
  query _ _ _ h := h.ask hK rfl fun _ => id

end Silent

/-! ## Options that have their targets -/

namespace Features

/-- An option was overridden for a document: it has the target, and there is a record that says so. -/
def InForce (value : σ → Slot → Value) (document : Handle) (o : Slot) (target : String)
    (w : World σ) : Prop :=
  value w.outside o = .text target ∧
    ∃ r, Assoc.get? (w.state.features.overrides document) (o.name, o.handle) = some r ∧
      r.target = .text target

variable {document : Handle} {o : Slot} {target : String} {w v : World σ}

theorem InForce.congr (h : InForce value document o target w) (hstate : v.state = w.state)
    (hoptions : value v.outside = value w.outside) : InForce value document o target v := by
  unfold InForce
  rw [hstate, hoptions]
  exact h

/-- Writing the overrides that are there changes nothing. -/
theorem setOverrides_self {f : Features} (h : f.isActive document = true) :
    f.setOverrides document (f.overrides document) = f := by
  obtain ⟨t, ht⟩ := Option.isSome_iff_exists.mp h
  have overrides : f.overrides document = t := by rw [Features.overrides, ht, Option.getD_some]
  rw [setOverrides, overrides, Assoc.put_of_get? ht]

theorem isActive_of_overrides {f : Features} {k : String × Handle} {r : Override}
    (h : Assoc.get? (f.overrides document) k = some r) : f.isActive document = true := by
  by_contra hidle
  rw [overrides_of_not_isActive (Bool.eq_false_iff.mpr hidle)] at h
  cases h

/-- An option that is in force is read when it is overridden, and nothing else happens. -/
theorem run_override_inForce (hs : Store s value) (htidy : w.state.features.Tidy)
    (ho : o.scope = scopeOf o.name) (h : InForce value document o target w) :
    (override s document o.name o.scope target o.handle).run w =
      (.ok (), afterCall s (.getOption o.scope o.handle o.name) w) := by
  obtain ⟨hvalue, r, hr, htarget⟩ := h
  have filed := (htidy document).filed _ r hr
  have record : (w.state.features.overrides document).record o.name o.scope (.text target) o.handle =
      r := by
    rw [OverrideTable.record, hr, ← htarget]
  have applied := run_apply hs o filed.name (filed.scope.trans ho.symm) w
  dsimp only at applied
  rw [htarget, hvalue, if_pos (Value.same_text_right.mpr rfl)] at applied
  unfold override
  rw [run_bind_of_ok _ (run_state w)]
  dsimp only
  rw [record, run_bind_of_ok _ applied, run_bind_of_ok _ (run_update _ _)]
  let u := afterCall s (.getOption o.scope o.handle o.name) w
  let f := w.state.features.setOverrides document
    (Assoc.put (w.state.features.overrides document) (o.name, o.handle) r)
  have same : f = w.state.features := by
    simp only [f, Assoc.put_of_get? hr, setOverrides_self (isActive_of_overrides hr)]
  show (Except.ok (), { u with state := { w.state with features := f } }) = (Except.ok (), u)
  rw [same]
  rfl

/-- Overriding an option puts it in force, and leaves the other ones in force that are. -/
theorem override_inForce (hs : Store s value) (htidy : w.state.features.Tidy)
    (ho : o.scope = scopeOf o.name) (target : String) :
    ∃ v, (override s document o.name o.scope target o.handle).run w = (.ok (), v) ∧
      InForce value document o target v ∧
      ∀ o' target', o'.name ≠ o.name → InForce value document o' target' w →
        InForce value document o' target' v := by
  obtain ⟨v, hrun, -, hcase⟩ := run_override hs (htidy document) ho target
  let t := w.state.features.overrides document
  let r := t.record o.name o.scope (.text target) o.handle
  have recorded : r.target = .text target := OverrideTable.target_record _ _ _ _ _
  obtain ⟨q, hq, hput, hvalue, hother⟩ : ∃ q : Override, q.target = .text target ∧
      v.state.features.overrides document = Assoc.put t (o.name, o.handle) q ∧
      value v.outside o = .text target ∧
      ∀ o', o' ≠ o → value v.outside o' = value w.outside o' := by
    rcases hcase with ⟨hsame, hput, -, hvalue⟩ | ⟨-, hput, -, hvalue⟩
    · refine ⟨r, recorded, hput, ?_, fun o' _ => congrFun hvalue o'⟩
      rw [hvalue, Value.same_text_right.mp hsame]
    · refine ⟨r.capture o.handle (value w.outside o), ?_, hput, ?_, fun o' ho' => ?_⟩
      · unfold Override.capture
        split <;> exact recorded
      · rw [hvalue, Function.update_self]
      · rw [hvalue, Function.update_of_ne ho']
  refine ⟨v, hrun, ⟨hvalue, q, ?_, hq⟩, ?_⟩
  · rw [hput, Assoc.get?_put_self]
  · rintro o' target' hne ⟨hvalue', r', hr', htarget'⟩
    refine ⟨(hother o' fun e => hne (congrArg Slot.name e)).trans hvalue', r', ?_, htarget'⟩
    rw [hput, Assoc.get?_put_of_ne _ _ fun e => hne (congrArg Prod.fst e).symm]
    exact hr'

/-! ## Starting -/

/-- The fold options of a document are in force, in the view that presents it. -/
def Folded (a : Answers) (value : σ → Slot → Value) (document : Handle) (l : String) (flags : Flags)
    (t : Targets) (w : World σ) : Prop :=
  ∀ view ∈ a.folds? document l flags,
    InForce value document ⟨.view, view, "foldmethod"⟩ t.foldMethod w ∧
      InForce value document ⟨.view, view, "foldexpr"⟩ t.foldExpr w

/-- The indent option of a document is in force. -/
def Indented (a : Answers) (value : σ → Slot → Value) (document : Handle) (l : String) (flags : Flags)
    (t : Targets) (w : World σ) : Prop :=
  (flags.indents && a.provides l "indents") = true →
    InForce value document ⟨.document, document, "indentexpr"⟩ t.indentExpr w

/-- The features of a document are shown with a language and flags: what is to be overridden is in
force, and highlighting the document again changes nothing. -/
structure Showing (a : Answers) (value : σ → Slot → Value) (lit : σ → Handle → Option String)
    (document : Handle) (l : String) (flags : Flags) (w : World σ) : Prop where
  active : w.state.features.isActive document = true
  highlighting : a.light document l flags (lit w.outside) = lit w.outside
  folded : Folded a value document l flags w.state.features.targets w
  indented : Indented a value document l flags w.state.features.targets w

/-- The features of a document were begun to be shown, with given target values and highlighting. -/
structure Begun (K : σ → Prop) (value : σ → Slot → Value) (lit : σ → Handle → Option String)
    (document : Handle) (t : Targets) (y : Handle → Option String) (w : World σ) : Prop where
  drawn : ∃ x, Drawn K value lit t x y w
  active : w.state.features.isActive document = true

section Starting

variable (hs : Store s value) (hK : Predictable s K a value lit) {l : String} {flags : Flags}

include hs hK

/-- Overriding an option that is in force is silent. -/
theorem leads_override_silent (htidy : w.state.features.Tidy) (ho : o.scope = scopeOf o.name)
    (h : InForce value document o target w) :
    Leads (Silent K value lit w) (override s document o.name o.scope target o.handle)
      (fun _ => Silent K value lit w) E := by
  intro v hv
  have force := h.congr hv.state hv.options
  rw [run_override_inForce hs (hv.state ▸ htidy) ho force]
  exact hv.ask hK rfl fun _ => id

/-- Starting a document again whose features are shown is silent. -/
theorem leads_start_silent (htidy : w.state.features.Tidy)
    (h : Showing a value lit document l flags w) :
    Leads (Silent K value lit w) (start s document l flags) (fun _ => Silent K value lit w) E := by
  have calm : Calm s K (Silent K value lit w) := calm_silent hK
  refine leads_start_calm hK document l flags (fun v hv => ?_) calm calm calm calm.log
    (fun hwanted => ?_) (fun _ _ hv => hv) (fun hwanted => ?_) (fun _ _ hv => hv)
    (fun hwanted => ?_) (fun _ _ hv => hv)
  · exact hv.update (f := fun st => { st with features := st.features.activate document })
      (by rw [activate, setOverrides_self h.active])
  · refine Leads.shielded (leads_of_run fun v hv => ?_) calm.log
    refine hv.ask_of hK rfl ?_
    have light := h.highlighting
    rw [← hv.highlighting] at light
    simp only [Answers.light, hwanted, Bool.true_and] at light
    exact (hK.light document l _ hv.steady).trans light
  · refine Leads.shielded (leads_state_eq.bind fun st => ?_) calm.log
    rintro v ⟨rfl, hv⟩
    rw [hv.state]
    have foreseen : ∀ v, Silent K value lit w v →
        (s.reply (.viewOf document) v.outside).1 = a (.viewOf document) :=
      fun v hv => hK.answers (.viewOf document) trivial _ hv.steady
    refine (Leads.bind (Q := fun view v => a (.viewOf document) = .ok view ∧
      Silent K value lit w v) (leads_ask (fun v view hv hview => ?_) fun v _ hv _ => ?_) fun view =>
        Leads.assume fun hview => ?_) v hv
    · exact ⟨(foreseen v hv).symm.trans hview, hv.ask hK rfl fun _ => id⟩
    · exact hv.ask hK rfl fun _ => id
    · have folds : view ∈ a.folds? document l flags := by
        unfold Answers.folds?
        rw [if_pos hwanted, hview]
        rfl
      obtain ⟨method, expr⟩ := h.folded view folds
      exact (leads_override_silent hs hK htidy (o := ⟨.view, view, "foldmethod"⟩) rfl method).bind
        fun _ => leads_override_silent hs hK htidy (o := ⟨.view, view, "foldexpr"⟩) rfl expr
  · refine Leads.shielded (leads_state_eq.bind fun st => ?_) calm.log
    rintro v ⟨rfl, hv⟩
    rw [hv.state]
    exact leads_override_silent hs hK htidy (o := ⟨.document, document, "indentexpr"⟩) rfl
      (h.indented hwanted) v hv

omit hs in
theorem calm_begun {t : Targets} {y : Handle → Option String} :
    Calm s K (Begun K value lit document t y) where
  steady _ h := h.drawn.elim fun _ h => h.steady
  log w k h := ⟨h.drawn.imp fun _ h => (calm_drawn hK).log w k h, h.active⟩
  query l name w h := ⟨h.drawn.imp fun _ h => (calm_drawn hK).query l name w h, h.active⟩

/-- Overriding an option puts it in force, next to what is kept by that. -/
theorem leads_override_begun {t : Targets} {y : Handle → Option String} {I : World σ → Prop}
    (ho : o.scope = scopeOf o.name) (target : String)
    (hI : ∀ w v, I w → (∀ o' target', o'.name ≠ o.name → InForce value document o' target' w →
      InForce value document o' target' v) → I v) :
    Leads (fun w => Begun K value lit document t y w ∧ I w)
      (override s document o.name o.scope target o.handle)
      (fun _ w => Begun K value lit document t y w ∧ I w ∧ InForce value document o target w) E := by
  rintro w ⟨⟨⟨x, hx⟩, hactive⟩, hw⟩
  obtain ⟨v, hrun, hforce, hkeeps⟩ := override_inForce hs hx.tidy ho target
  have drawn := leads_override_drawn hK document ho target w hx
  have active : Keeps (fun w => w.state.features.isActive document = true)
      (override s document o.name o.scope target o.handle) :=
    keeps_override ⟨fun _ _ h => h, by simp, fun _ _ _ h => h⟩ document
      (fun w t _ => by simp [World.onFeatures, isActive_setOverrides]) _ _ _ _
  rw [hrun] at drawn ⊢
  exact ⟨⟨⟨_, drawn.2⟩, active.of_run hrun hactive⟩, hI w v hw hkeeps, hforce⟩

omit hs in
/-- Highlighting lights the document. -/
theorem leads_showHighlights_begun (t : Targets) (y : Handle → Option String)
    (hwanted : (flags.highlights && a.provides l "highlights") = true) :
    Leads (Begun K value lit document t y) (showHighlights s document l)
      (fun _ => Begun K value lit document t (a.light document l flags y)) E := by
  have active : Leads (fun w => w.state.features.isActive document = true)
      (showHighlights s document l) (fun _ w => w.state.features.isActive document = true) E :=
    Leads.shielded (leads_of_run fun w hw => hw) fun _ _ hw => hw
  rintro w ⟨⟨x, hx⟩, hactive⟩
  have lights : Leads (Drawn K value lit t x y) (showHighlights s document l)
      (fun _ => Drawn K value lit t x (a.light document l flags y)) E := by
    simp only [Answers.light, hwanted, Bool.true_and]
    exact leads_showHighlights_drawn hK l
  exact ((lights.and active).weaken fun _ v hv => ⟨⟨x, hv.1⟩, hv.2⟩) w ⟨hx, hactive⟩

/-- Folding puts the fold options in force, if the document has a view. -/
theorem leads_showFolds_begun (t : Targets) (y : Handle → Option String)
    (hwanted : (flags.folds && a.provides l "folds") = true) :
    Leads (Begun K value lit document t y) (showFolds s document l)
      (fun _ w => Begun K value lit document t y w ∧ Folded a value document l flags t w) E := by
  let Lit := Begun K value lit document t y
  have calm : Calm s K Lit := calm_begun hK
  have asked : ∀ w, Lit w → Lit (afterCall s (.viewOf document) w) := fun w hw =>
    ⟨hw.drawn.imp fun _ h => drawn_ask hK rfl (fun _ => id) h, hw.active⟩
  have foreseen : ∀ w, Lit w → (s.reply (.viewOf document) w.outside).1 = a (.viewOf document) :=
    fun w hw => hK.answers (.viewOf document) trivial _ (calm.steady w hw)
  have folds : a.folds? document l flags = (a (.viewOf document)).toOption := if_pos hwanted
  refine Leads.shielded (leads_state_eq.bind fun st => ?_) fun w k hw => ⟨calm.log w k hw.1, hw.2⟩
  refine Leads.mono (P := fun w => st.features.targets = t ∧ Lit w) (Leads.assume fun ht => ?_)
    (fun w hw => ⟨hw.1 ▸ hw.2.drawn.elim fun _ h => h.targets, hw.2⟩) (fun _ _ hw => hw)
    fun _ hw => hw
  dsimp only
  rw [ht]
  refine Leads.bind (Q := fun view w => a (.viewOf document) = .ok view ∧ Lit w)
    (leads_ask (fun w view hw hview => ⟨(foreseen w hw).symm.trans hview, asked w hw⟩)
      fun w f hw hfails => ⟨asked w hw, fun view hview => ?_⟩) fun view =>
        Leads.assume fun hview => ?_
  · -- without a view there is nothing to be in force
    rw [folds, ← foreseen w hw, hfails] at hview
    cases hview
  · refine Leads.bind (Q := fun _ w => Lit w ∧
      InForce value document ⟨.view, view, "foldmethod"⟩ t.foldMethod w)
      ((leads_override_begun hs hK (o := ⟨.view, view, "foldmethod"⟩) (I := fun _ => True) rfl
        t.foldMethod fun _ _ _ _ => trivial).mono (fun w hw => ⟨hw, trivial⟩)
          (fun _ w hw => ⟨hw.1, hw.2.2⟩) fun _ hw => hw) fun _ => ?_
    refine (leads_override_begun hs hK (o := ⟨.view, view, "foldexpr"⟩) rfl t.foldExpr
      fun w v hw hkeeps => hkeeps _ _ (by simp) hw).weaken fun _ w hw => ⟨hw.1, fun h hh => ?_⟩
    rw [folds, hview] at hh
    obtain rfl := Option.some.inj hh
    exact hw.2

/-- Indenting puts the indent option in force. -/
theorem leads_showIndents_begun (t : Targets) (y : Handle → Option String) :
    Leads (fun w => Begun K value lit document t y w ∧ Folded a value document l flags t w)
      (showIndents s document l)
      (fun _ w => Begun K value lit document t y w ∧ Folded a value document l flags t w ∧
        InForce value document ⟨.document, document, "indentexpr"⟩ t.indentExpr w) E := by
  have calm : Calm s K (Begun K value lit document t y) := calm_begun hK
  refine Leads.shielded (leads_state_eq.bind fun st => ?_) fun w k hw => ⟨calm.log w k hw.1, hw.2⟩
  rintro w ⟨rfl, hw⟩
  obtain ⟨x, hx⟩ := hw.1.drawn
  rw [hx.targets]
  refine leads_override_begun hs hK (o := ⟨.document, document, "indentexpr"⟩) rfl t.indentExpr
    (fun w v hw hkeeps view hview => ?_) w hw
  exact ⟨hkeeps _ _ (by simp) (hw view hview).1, hkeeps _ _ (by simp) (hw view hview).2⟩

/-- **The features of a document that was started are shown.** -/
theorem leads_start_showing (document : Handle) (l : String) (flags : Flags) :
    Leads (fun w => K w.outside ∧ w.state.features.Tidy) (start s document l flags)
      (fun _ => Showing a value lit document l flags) E := by
  rintro w₀ hw₀
  let t := w₀.state.features.targets
  let y := lit w₀.outside
  let z := a.light document l flags y
  have begun : ∀ y, Calm s K (Begun K value lit document t y) := fun y => calm_begun hK
  have folded : Calm s K fun w =>
      Begun K value lit document t z w ∧ Folded a value document l flags t w := by
    refine ⟨fun w hw => (begun z).steady w hw.1, fun w k hw => ⟨(begun z).log w k hw.1, hw.2⟩,
      fun l' name w hw => ⟨(begun z).query l' name w hw.1, fun view hview => ?_⟩⟩
    have options := hs.other (.query l' name) w.outside rfl
    exact ⟨(hw.2 view hview).1.congr rfl options, (hw.2 view hview).2.congr rfl options⟩
  have shown : ∀ w, Begun K value lit document t z w → Folded a value document l flags t w →
      Indented a value document l flags t w → Showing a value lit document l flags w := by
    intro w hw hfolded hindented
    obtain ⟨x, hx⟩ := hw.drawn
    rw [← hx.targets] at hfolded hindented
    have lit_idem : a.light document l flags z = z := by
      unfold z Answers.light
      split <;> simp
    exact ⟨hw.active, by rw [hx.highlighting, lit_idem], hfolded, hindented⟩
  refine leads_start_calm hK document l flags (P := (· = w₀)) (fun w hw => ?_)
    (begun y) (begun z) folded (fun w k hw => { hw with })
    (leads_showHighlights_begun hK t y) (fun hdark w hw => ?_)
    (leads_showFolds_begun hs hK t z) (fun hflat w hw => ⟨hw, fun view hview => ?_⟩)
    (fun _ => (leads_showIndents_begun hs hK t z).weaken fun _ w hw =>
      shown w hw.1 hw.2.1 fun _ => hw.2.2)
    (fun hplain w hw => shown w hw.1 hw.2 fun h => absurd h (Bool.eq_false_iff.mp hplain)) w₀ rfl
  · subst hw
    have drawn : Drawn K value lit t (value w.outside) y w := ⟨hw₀.1, rfl, rfl, rfl, hw₀.2⟩
    refine ⟨⟨_, drawn.proceeds (.activate w.state.features document)⟩, ?_⟩
    simp [World.onFeatures, activate, isActive_setOverrides]
  · have same : z = y := by simp [z, Answers.light, hdark]
    rw [same]
    exact hw
  · unfold Answers.folds? at hview
    rw [hflat] at hview
    cases hview

end Starting

end Features

/-! ## Installing twice -/

/-- A document that waits for a language is not put on the list again. -/
theorem State.enqueue_of_mem {st : State} {l : String} {y : Waiter} (h : y ∈ st.waitersOf l) :
    st.enqueue l y = st := by
  have there : Assoc.get? st.waiters l = some (st.waitersOf l) := by
    unfold State.waitersOf at h ⊢
    cases hw : Assoc.get? st.waiters l with
    | none => simp [hw] at h
    | some ys => rfl
  rw [State.enqueue, if_pos h, Assoc.put_of_get? there]

/-- Whoever hears about a language is not made to hear of it again. -/
theorem Gateway.listen_of_mem {g : Gateway} {c : Callback} {l : String} (h : c ∈ g.listeners l) :
    g.listen c l = g := by
  have there : Assoc.get? g.callbacks l = some (g.listeners l) := by
    unfold Gateway.listeners at h ⊢
    cases hg : Assoc.get? g.callbacks l with
    | none => simp [hg] at h
    | some cs => rfl
  have known : (Assoc.get? g.callbacks l).getD [] = g.listeners l := rfl
  rw [Gateway.listen, known, if_pos h, Assoc.put_of_get? there]

/-- A request for a language that is being installed, by somebody who hears about it, changes
nothing. -/
theorem Gateway.accept_of_pending {st : State} {c : Callback} {l : String}
    (hpending : Assoc.get? st.gateway.pending l ≠ none) (hlistens : c ∈ st.gateway.listeners l) :
    accept st [l] (some c) = st := by
  have stale : st.gateway.fresh [l] = [] := by rw [fresh_singleton, if_neg hpending]
  rw [accept_eq, stale, if_pos rfl]
  show { st with gateway := (st.gateway.listen c l).assign [] _ } = st
  rw [listen_of_mem hlistens]
  rfl

/-- **Having a language installed twice for a document is having it installed once.** -/
theorem State.install_install (st : State) (l : String) (y : Waiter) :
    (st.install l y).install l y = st.install l y := by
  by_cases hr : st.loop.isRunning = true
  · let st' := Gateway.accept (st.enqueue l y) [l] (some .enablement)
    have once : st.install l y = st' := if_pos hr
    have running : st'.loop.isRunning = true := by
      simp only [st', Gateway.accept_eq]
      split <;> exact hr
    have waits : y ∈ st'.waitersOf l := by
      have same : st'.waiters = (st.enqueue l y).waiters := by
        simp only [st', Gateway.accept_eq]
      rw [State.waitersOf, same]
      exact Enablement.mem_waitersOf_enqueue.mpr (.inr rfl)
    have pending : Assoc.get? st'.gateway.pending l ≠ none := by
      rw [Gateway.accept_pending]
      split
      · exact Option.some_ne_none _
      · next h => simpa using h
    have hears : .enablement ∈ st'.gateway.listeners l := by
      rw [Gateway.accept_listeners]
      exact Gateway.mem_listenAll _ _ _ (List.mem_singleton_self l)
    rw [once, State.install, if_pos running, State.enqueue_of_mem waits,
      Gateway.accept_of_pending pending hears]
  · let st' := (st.enqueue l y).dequeue l
    have once : st.install l y = st' := if_neg hr
    have stopped : ¬ st'.loop.isRunning = true := hr
    have none : Assoc.get? st'.waiters l = none := Assoc.get?_remove_self _ _
    rw [once, State.install, if_neg stopped]
    show { st' with waiters := Assoc.remove (Assoc.put st'.waiters l _) l } = st'
    rw [Assoc.remove_put_self, Assoc.remove_of_get?_eq_none none]

/-! ## Attaching twice -/

namespace Enablement

variable {document : Handle} {filetype : String} {present : Bool} {r : Option Availability}

/-- What a plan asks for was done for a document: the features are shown, or to have the language
installed again changes nothing. -/
def Done (a : Answers) (value : σ → Slot → Value) (lit : σ → Handle → Option String)
    (document : Handle) (filetype : String) (r : Option Availability) (w : World σ) :
    Option Plan → Prop
  | none => r = none
  | some q =>
    match q.decision with
    | .start | .fallBack =>
      r = some .available ∧ Assoc.get? w.state.registry filetype = some .available ∧
        Features.Showing a value lit document q.language q.flags w
    | .install =>
      r = some q.known ∧ w.state.install q.language ⟨document, filetype⟩ = w.state
    | .leave => r = some q.known

/-- All that attaching a document again depends on: whether there is an installer is known if it
matters, and what is planned was done already. -/
structure Repeats (K : σ → Prop) (a : Answers) (value : σ → Slot → Value)
    (lit : σ → Handle → Option String) (present : Bool) (document : Handle) (filetype : String)
    (r : Option Availability) (w : World σ) : Prop where
  steady : K w.outside
  initialized : w.state.initialized = true
  sought : ∀ q ∈ a.plan present w.state filetype, q.flags.autoInstall = true →
    Gateway.Sought present w.state.gateway.installer
  done : Done a value lit document filetype r w (a.plan present w.state filetype)

section Attaching

variable (hs : Store s value) (hK : Predictable s K a value lit)

include hs hK

/-- Attaching a document again is silent. -/
theorem leads_attach_silent {w : World σ} (hw : Repeats K a value lit present document filetype r w)
    (hsane : Sane w) :
    Leads (Silent K value lit w) (attach s document filetype)
      (fun r' v => r' = r ∧ Silent K value lit w v) E := by
  have silent : Blind s [] [.editor] (Silent K value lit w) := blind_silent hK
  have done := hw.done
  have ready : ∀ v, Silent K value lit w v → Ready K w.state filetype v := fun v hv =>
    ⟨hv.steady, hv.state ▸ hw.initialized, by rw [hv.state], by rw [hv.state], by rw [hv.state],
      (hsane.ready hw.steady hw.initialized filetype).grounded⟩
  refine leads_attach_forecast hK silent ready silent
    (fun _ hv => hv) (fun _ _ hv => hv)
    (fun q (hq : q ∈ a.plan present w.state filetype) hauto v hv => ?_) (fun hnone v hv => ?_)
    (fun q hq hleave v hv => ?_) (fun q hq hshows => ?_) fun q hq hinstall => ?_
  · rw [Gateway.run_isPresent_sought (hv.state ▸ hw.sought q hq hauto)]
    exact ⟨rfl, hv⟩
  · rw [hnone] at done
    exact ⟨done.symm, hv⟩
  · rw [Option.mem_def.mp hq] at done
    simp only [Done, hleave] at done
    exact ⟨done.symm, hv⟩
  · obtain ⟨rfl, hentry, hshowing⟩ : r = some .available ∧
        Assoc.get? w.state.registry filetype = some .available ∧
        Features.Showing a value lit document q.language q.flags w := by
      rw [Option.mem_def.mp hq] at done
      rcases hshows with hd | hd <;> simpa only [Done, hd] using done
    refine (leads_setAvailability_by (Q := Silent K value lit w) silent.log fun v hv =>
      hv.update (f := fun st => { st with registry := st.registry.set filetype .available }) ?_).bind
        fun _ => Leads.bind (Q := fun _ => Silent K value lit w) ?_ fun _ =>
          leads_pure fun v hv => ⟨rfl, hv⟩
    · rw [Registry.set, Assoc.put_of_get? hentry]
    · exact (Features.leads_start_silent hs hK hsane.tidy hshowing).shielded silent.log
  · obtain ⟨hauto, rfl, hnamed⟩ := (plan_of_install hq hinstall).2
    rw [Option.mem_def.mp hq] at done
    simp only [Done, hinstall] at done
    refine leads_installFor_install (Q := fun v => some q.known = r ∧ Silent K value lit w v) hnamed
      document filetype (fun v k hv => ⟨hv.1, silent.log v k hv.2⟩) (fun v hv => ?_)
      fun v hv => ⟨done.1.symm, hv.update (f := fun st => st.install q.language _) done.2⟩
    rw [hv.state]
    exact (hw.sought q hq hauto).eq_true_iff.mp rfl

/-- A document that was started has its features shown, and is to be started again. -/
theorem leads_startAvailable_repeats {w : World σ} (hw : Ready K w.state filetype w)
    (htidy : w.state.features.Tidy) {q : Plan} (hq : q ∈ a.plan present w.state filetype)
    (hshows : q.Shows) :
    Leads (Looked s K a value lit present filetype w)
      (startAvailable s document filetype q.language q.flags)
      (Repeats K a value lit present document filetype) E := by
  let Known (i : Installer) : Prop := q.flags.autoInstall = true → Gateway.Sought present i
  have steady : Keeps (fun v => K v.outside)
      (Features.start s document q.language q.flags) :=
    Features.keeps_start ⟨fun _ _ h => h, fun _ _ _ _ _ h => h, fun c _ v h => hK.stays c _ h⟩ _ _ _
  have shown := (Features.leads_start_showing (E := fun _ => False) hs hK document q.language
    q.flags).and_keeps (E := fun _ => False) steady
  refine (leads_startAvailable_enabled (C := Known) (w := w) (blind_looked hK).log (fun v hv => ?_)
    (fun v hv => ?_) shown fun v k hv => ⟨{ hv.1 with }, hv.2⟩).weaken fun r v hv => ?_
  · obtain ⟨i, hi⟩ := hv.state
    have sought := hv.sought q hq
    rw [hi] at sought
    exact ⟨i, sought, hi⟩
  · obtain ⟨i, hi⟩ := hv.state
    refine ⟨⟨hv.steady, ?_⟩, hv.steady⟩
    rw [hi]
    exact htidy
  · obtain ⟨rfl, ⟨hshowing, hsteady⟩, i, g, hknown, hst⟩ := hv
    have entry : Assoc.get? v.state.registry filetype = some .available := by
      rw [hst]
      exact Assoc.get?_put_self _ _ _
    have plan : a.plan present v.state filetype = some ⟨q.language, q.flags, .available, .start⟩ :=
      plan_of_available hq hshows entry (by rw [hst])
    refine ⟨hsteady, by rw [hst]; exact hw.initialized, fun q' hq' hauto => ?_, ?_⟩
    · rw [plan] at hq'
      obtain rfl := Option.some.inj hq'
      rw [hst]
      exact hknown hauto
    · rw [plan]
      exact ⟨rfl, entry, hshowing⟩

omit hs hK in
/-- A document that had a language installed waits for it, or does not, also if it has it installed
again. -/
theorem leads_installFor_repeats {w : World σ} (hw : Ready K w.state filetype w) {q : Plan}
    (hq : q ∈ a.plan present w.state filetype) (hinstall : q.decision = .install) :
    Leads (Looked s K a value lit present filetype w)
      (installFor s document filetype q.language)
      (fun _ => Repeats K a value lit present document filetype (some q.known)) E := by
  let y : Waiter := ⟨document, filetype⟩
  let Installed (v : World σ) : Prop := K v.outside ∧ v.state.initialized = true ∧
    Gateway.Sought present v.state.gateway.installer ∧
    a.plan present v.state filetype = some q ∧ v.state.install q.language y = v.state
  obtain ⟨hauto, rfl, hnamed⟩ := (plan_of_install hq hinstall).2
  refine (leads_installFor_install (P := Looked s K a value lit true filetype w) (Q := Installed)
    hnamed document filetype (fun _ _ hv => hv)
    (fun v hv => (hv.sought q hq hauto).eq_true_iff.mp rfl) fun v hv => ?_).weaken
      fun _ v ⟨hsteady, hinitialized, hsought, hplan, hagain⟩ => ?_
  · have plan := (hv.plan_eq (a := a) filetype).trans hq
    have initialized := (hv.ready hw).initialized
    have sought := hv.sought q hq hauto
    refine ⟨hv.steady, ?_, ?_, ?_, State.install_install _ _ _⟩ <;>
      obtain ⟨ws, ps, cs, o, he⟩ := v.state.install_eq q.language y <;> dsimp only <;> rw [he]
    · exact initialized
    · exact sought
    · exact plan
  · refine ⟨hsteady, hinitialized, fun _ _ _ => hsought, ?_⟩
    rw [hplan]
    simp only [Done, hinstall]
    exact ⟨trivial, hagain⟩

/-- **After a document was attached, attaching it again changes nothing.** -/
theorem leads_attach_repeats (document : Handle) {w : World σ} (hw : Ready K w.state filetype w)
    (htidy : w.state.features.Tidy) :
    Leads (Idle s K value lit present w) (attach s document filetype)
      (Repeats K a value lit present document filetype) E := by
  have same : ∀ {r v}, Looked s K a value lit present filetype w v →
      Done a value lit document filetype r v (a.plan present w.state filetype) →
      Repeats K a value lit present document filetype r v := by
    intro r v hv hdone
    have plan := hv.plan_eq (a := a) filetype
    exact ⟨hv.steady, (hv.ready hw).initialized, plan ▸ hv.sought, plan ▸ hdone⟩
  refine leads_attach_idle hK hw (fun hnone v hv => same hv ?_) (fun q hq hleave v hv => same hv ?_)
    (fun q hq hshows => leads_startAvailable_repeats hs hK hw htidy hq hshows)
    fun q hq hinstall => leads_installFor_repeats hw hq hinstall
  · rw [hnone]
    rfl
  · rw [Option.mem_def.mp hq]
    simp only [Done, hleave]

end Attaching

end Enablement

/-! ## The same event twice -/

/-- **The same event twice.** A world that a run ended in is set up, and the options of its
surroundings behave as a store; from now on, the other answers do not change. A document gets a
filetype, and then it gets the same filetype again, with the loop running or not both times. Both
events end with the same result. The second one leaves the whole state as it is, and all options and
the highlighting, and writes no option. -/
theorem event_twice (hs : Store s value) (hK : Predictable s K a value lit) {w₀ w : World σ}
    (hw₀ : Initial w₀) {steps : List (Step σ)} (hrun : run s steps w₀ = w) (hsteady : K w.outside)
    (hinitialized : w.state.initialized = true) (document : Handle) (filetype : String) (b : Bool)
    {r₁ r₂ : Except Fault (Option Availability)} {v₁ v₂ : World σ}
    (h₁ : (Controller.filetypeEvent s (some document) (some filetype)).run (w.setRunning b) =
      (r₁, v₁))
    (h₂ : (Controller.filetypeEvent s (some document) (some filetype)).run v₁ = (r₂, v₂)) :
    (∃ r, r₁ = .ok r ∧ r₂ = .ok r) ∧ v₂.state = v₁.state ∧ value v₂.outside = value v₁.outside ∧
      lit v₂.outside = lit v₁.outside ∧ written v₁ v₂ = [] := by
  let u := w.setRunning b
  have sane : Sane w := hrun ▸ sane_run hw₀ steps
  have sane₁ : Sane v₁ := sane.event h₁
  obtain ⟨present, finds⟩ := Gateway.exists_finds hK (w := u) hsteady
  rw [run_filetypeEvent] at h₁ h₂
  split at h₁
  · next hauto =>
    have ready := (sane_setRunning.mpr sane).ready (w := u) hsteady hinitialized filetype
    have first := Enablement.leads_attach_repeats (E := fun _ => False) hs hK document ready
      sane.tidy u (.refl hsteady finds)
    have auto : v₁.state.autoAttach = true :=
      (Enablement.keeps_attach (Blind.of_state (J := fun st => st.autoAttach = true)
        fun p hp st st' hst h => by cases hst <;> first | exact h | simp at hp) document
          filetype).of_run h₁ hauto
    rw [h₁] at first
    rcases r₁ with f | r
    · exact first.elim
    have second := Enablement.leads_attach_silent (E := fun _ => False) hs hK first sane₁ v₁
      (.refl first.steady)
    rw [if_pos auto] at h₂
    rw [h₂] at second
    rcases r₂ with f | r'
    · exact second.elim
    · obtain ⟨rfl, silent⟩ := second
      exact ⟨⟨r', rfl, rfl⟩, silent.state, silent.options, silent.highlighting, silent.unwritten⟩
  · next hoff =>
    obtain ⟨rfl, rfl⟩ := Prod.mk.inj h₁
    rw [if_neg hoff] at h₂
    obtain ⟨rfl, rfl⟩ := Prod.mk.inj h₂
    exact ⟨⟨none, rfl, rfl⟩, rfl, rfl, rfl, written_self _⟩

open Controller (typedEditor typedWorld typedEditor_screen)

/-- Setting the program up takes an event of a filetype that is not managed. The document of
typescriptreact shows no features before the first event, and its indent option is written by it. -/
theorem event_twice_typed :
    let s := typedEditor
    let w := run s [.call true (.filetypeEvent (some (.number 2)) (some "text"))] typedWorld
    let event := Controller.filetypeEvent s (some (.number 1)) (some "typescriptreact")
    let v₁ := (event.run (w.setRunning true)).2
    let v₂ := (event.run v₁).2
    w.state.initialized = true ∧ w.state.features.isActive (.number 1) = false ∧
      written w v₁ = [⟨.document, .number 1, "indentexpr"⟩] ∧
      (event.run v₁).1 = .ok (some .available) ∧ v₂.state = v₁.state ∧ written v₁ v₂ = [] := by
  intro s w event v₁ v₂
  have initialized : w.state.initialized = true := by decide +kernel
  have first : event.run (w.setRunning true) = ((event.run (w.setRunning true)).1, v₁) :=
    (Prod.eta _).symm
  have second : event.run v₁ = ((event.run v₁).1, v₂) := (Prod.eta _).symm
  obtain ⟨⟨r, h₁, h₂⟩, state, -, -, unwritten⟩ :=
    event_twice typedEditor_screen.store typedEditor_predictable (⟨rfl, rfl⟩ : Initial typedWorld)
      (rfl : run s [_] typedWorld = w) trivial initialized (.number 1) "typescriptreact" true first
      second
  have available : (event.run (w.setRunning true)).1.toOption = some (some .available) := by
    decide +kernel
  rw [h₁] at available
  obtain rfl := Option.some.inj available
  exact ⟨initialized, by decide +kernel, by decide +kernel, h₂, state, unwritten⟩

end TreeFeatures
