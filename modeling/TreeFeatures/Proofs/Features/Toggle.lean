import TreeFeatures.Proofs.Alike
import TreeFeatures.Proofs.Enablement.Evolution
import TreeFeatures.Proofs.Features.Sharing
import TreeFeatures.Proofs.Reached

/-!
# Toggling twice

A document is started by attaching it, and then toggled twice. The first toggle takes back all that
attaching did to highlighting and options. The second one starts the document again, but it does not
ask for the language of the filetype: it takes the filetype for the name of the language.

* `Highlights` are surroundings in which one call highlights a document and another one takes that
  away. `Steady` are states of the surroundings from which on answers do not change.
* `Like`: a world shows the same as another one.
* `leads_attach_attempted`: if attaching makes a document active, it was started with its language.
* `leads_stop_back`: stopping goes back to what was shown before.
* `toggle_twice`: the result. If the language has another name than the filetype, highlighting and
  flags may be other ones afterwards (`toggle_changes_language`).
-/

namespace TreeFeatures

open Act

/-- The calls that change the highlighting of a document. -/
def Call.Lights (document : Handle) : Call → Prop
  | startHighlighting d _ | stopHighlighting d => d = document
  | _ => False

variable {σ : Type} {s : Surroundings σ} {document : Handle} {lit : σ → Option String}
  {value : σ → Slot → Value} {K : σ → Prop} {filetype : String} {language : Option String}

/-- Surroundings that highlight a document with the language of the last call that asked for it,
until a call takes the highlighting away. -/
structure Highlights (s : Surroundings σ) (document : Handle) (lit : σ → Option String) :
    Prop where
  look : ∀ x, (s.reply (.isHighlighting document) x).1 = .ok (lit x).isSome
  light : ∀ l x, (s.reply (.startHighlighting document l) x).1 = .ok () ∧
    lit (s.reply (.startHighlighting document l) x).2 = some l
  darken : ∀ x, (s.reply (.stopHighlighting document) x).1 = .ok () ∧
    lit (s.reply (.stopHighlighting document) x).2 = none
  other : ∀ c x, ¬ c.Lights document → lit (s.reply c x).2 = lit x

/-- States of the surroundings from which on the answers about queries, the view of a document, the
current document, its filetype and the language of that do not change. -/
structure Steady (s : Surroundings σ) (K : σ → Prop) (document : Handle) (filetype : String)
    (language : Option String) : Prop where
  stays : ∀ c x, K x → K (s.reply c x).2
  query : ∀ l name x y, K x → K y →
    (s.reply (.query l name) x).1 = (s.reply (.query l name) y).1
  viewOf : ∀ x y, K x → K y → (s.reply (.viewOf document) x).1 = (s.reply (.viewOf document) y).1
  current : ∀ x, K x → (s.reply .currentDocument x).1 = .ok document
  filetypeOf : ∀ x, K x → (s.reply (.filetypeOf document) x).1 = .ok filetype
  languageOf : ∀ x, K x → (s.reply (.languageOf filetype) x).1 = .ok language
  notify : ∀ m level x, K x → (s.reply (.notify m level) x).1 = .ok ()

/-! ## Worlds that show the same -/

/-- Two worlds show the same: the same documents are active and have the same overrides, a document
is highlighted with the same language, and all options have the same values. -/
structure ShowsSame (lit : σ → Option String) (value : σ → Slot → Value) (w v : World σ) :
    Prop where
  features : w.state.features = v.state.features
  highlighting : lit w.outside = lit v.outside
  options : value w.outside = value v.outside

namespace ShowsSame

theorem refl (w : World σ) : ShowsSame lit value w w := ⟨rfl, rfl, rfl⟩

theorem symm {w v : World σ} (h : ShowsSame lit value w v) : ShowsSame lit value v w :=
  ⟨h.features.symm, h.highlighting.symm, h.options.symm⟩

theorem trans {w v u : World σ} (h : ShowsSame lit value w v) (h' : ShowsSame lit value v u) :
    ShowsSame lit value w u :=
  ⟨h.features.trans h'.features, h.highlighting.trans h'.highlighting, h.options.trans h'.options⟩

end ShowsSame

/-- A world shows the same as another one, and the answers of its surroundings do not change. -/
structure Like (K : σ → Prop) (lit : σ → Option String) (value : σ → Slot → Value)
    (v u : World σ) : Prop where
  steady : K v.outside
  same : ShowsSame lit value v u

/-- A call that is not about options writes none. -/
theorem Call.written?_of_area_ne {c : Call} (h : c.area ≠ .options) : c.written? = none := by
  cases c <;> first | rfl | exact absurd rfl h

/-- A call that is not about features changes no highlighting. -/
theorem Call.not_lights_of_area_ne {c : Call} (h : c.area ≠ .features) :
    ¬ c.Lights document := by
  cases c <;> first | exact id | exact absurd rfl h

/-- Surroundings whose options are a store, with a document that they highlight. -/
structure Screen (s : Surroundings σ) (document : Handle) (lit : σ → Option String)
    (value : σ → Slot → Value) : Prop where
  store : Store s value
  highlights : Highlights s document lit

variable (hs : Screen s document lit value) (hK : Steady s K document filetype language)

include hs hK

theorem Like.afterCall {v u : World σ} (h : Like K lit value v u) {c : Call}
    (hfeatures : c.area ≠ .features) (hoptions : c.area ≠ .options) :
    Like K lit value (Act.afterCall s c v) u where
  steady := hK.stays c _ h.steady
  same :=
    { features := h.same.features
      highlighting :=
        (hs.highlights.other c _ (Call.not_lights_of_area_ne hfeatures)).trans h.same.highlighting
      options := (hs.store.other c _ (Call.written?_of_area_ne hoptions)).trans h.same.options }

theorem blind_like {u : World σ} {parts : List Part} {areas : List Area}
    (hp : Part.features ∉ parts) (hfeatures : Area.features ∉ areas)
    (hoptions : Area.options ∉ areas) : Blind s parts areas fun v => Like K lit value v u where
  log _ _ h := ⟨h.steady, h.same.features, h.same.highlighting, h.same.options⟩
  write p hpp v st hst h := by
    cases hst with
    | features => exact absurd hpp hp
    | _ => exact ⟨h.steady, h.same.features, h.same.highlighting, h.same.options⟩
  ask c hc v h := h.afterCall hs hK (fun e => hfeatures (e ▸ hc)) fun e => hoptions (e ▸ hc)

/-- Worlds that show the same look the same to whoever shows the features of the document. -/
theorem twins_like : Twins s document fun v u => Like K lit value v u ∧ K u.outside where
  log w v k l h := ⟨⟨h.1.steady, h.1.same.features, h.1.same.highlighting, h.1.same.options⟩, h.2⟩
  features w v h := h.1.same.features
  change w v f h :=
    ⟨⟨h.1.steady, congrArg f h.1.same.features, h.1.same.highlighting, h.1.same.options⟩, h.2⟩
  ask c hc w v h := by
    obtain ⟨⟨hw, hfeatures, hlit, hvalue⟩, hv⟩ := h
    have after : ∀ {lit' value'}, lit (s.reply c w.outside).2 = lit' →
        lit (s.reply c v.outside).2 = lit' → value (s.reply c w.outside).2 = value' →
        value (s.reply c v.outside).2 = value' →
        Like K lit value (afterCall s c w) (afterCall s c v) ∧ K (afterCall s c v).outside :=
      fun hlw hlv hvw hvv => ⟨⟨hK.stays c _ hw, hfeatures, hlw.trans hlv.symm, hvw.trans hvv.symm⟩,
        hK.stays c _ hv⟩
    -- the answer depends on what is shown only, and so does what is shown next
    cases c with
    | query l name =>
      refine ⟨hK.query l name _ _ hw hv, after (hs.highlights.other _ _ id) ?_
        (hs.store.other _ _ rfl) ?_⟩
      · exact (hs.highlights.other _ _ id).trans hlit.symm
      · exact (hs.store.other _ _ rfl).trans hvalue.symm
    | viewOf d =>
      obtain rfl : d = document := hc
      refine ⟨hK.viewOf _ _ hw hv, after (hs.highlights.other _ _ id) ?_
        (hs.store.other _ _ rfl) ?_⟩
      · exact (hs.highlights.other _ _ id).trans hlit.symm
      · exact (hs.store.other _ _ rfl).trans hvalue.symm
    | startHighlighting d l =>
      obtain rfl : d = document := hc
      obtain ⟨hokw, hlw⟩ := hs.highlights.light l w.outside
      obtain ⟨hokv, hlv⟩ := hs.highlights.light l v.outside
      refine ⟨hokw.trans hokv.symm, after hlw hlv (hs.store.other _ _ rfl) ?_⟩
      exact (hs.store.other _ _ rfl).trans hvalue.symm
    | getOption scope handle name =>
      refine ⟨?_, after (hs.highlights.other _ _ id) ?_ (hs.store.other _ _ rfl) ?_⟩
      · rw [hs.store.read ⟨scope, handle, name⟩, hs.store.read ⟨scope, handle, name⟩, hvalue]
      · exact (hs.highlights.other _ _ id).trans hlit.symm
      · exact (hs.store.other _ _ rfl).trans hvalue.symm
    | setOption scope handle name x =>
      have write := hs.store.write ⟨scope, handle, name⟩ x
      refine ⟨?_, after (hs.highlights.other _ _ id) ?_ (write _) ?_⟩
      · exact (hs.store.accept ⟨scope, handle, name⟩ x _).trans
          (hs.store.accept ⟨scope, handle, name⟩ x _).symm
      · exact (hs.highlights.other _ _ id).trans hlit.symm
      · rw [write, hvalue]
    | _ => exact hc.elim

/-! ## Attaching -/

/-- The program is set up with given settings. -/
def Prepared (x : Settings) (v : World σ) : Prop :=
  v.state.settings = some x ∧ v.state.initialized = true

omit hs hK in
theorem blind_prepared {x : Settings} {parts : List Part} {areas : List Area}
    (hsettings : Part.settings ∉ parts) (hinitialized : Part.initialized ∉ parts) :
    Blind s parts areas (Prepared x) := by
  refine Blind.of_state (J := fun st => st.settings = some x ∧ st.initialized = true)
    fun p hp st st' hst h => ?_
  cases hst with
  | settings => exact absurd hp hsettings
  | initialized => exact absurd hp hinitialized
  | _ => exact h

/-- What attaching a document leaves: the same is shown as in a world before, or what starting the
document there with the language of its filetype shows. -/
def Attempted (s : Surroundings σ) (K : σ → Prop) (document : Handle) (language : Option String)
    (lit : σ → Option String) (value : σ → Slot → Value) (w v : World σ) : Prop :=
  Like K lit value v w ∨ ∃ l x, language = some l ∧
    Like K lit value v ((Features.start s document l (x.resolve (some l))).run w).2 ∧ Prepared x v

namespace Enablement

omit hs hK in
/-- The flags of a plan are those of its language. -/
theorem leads_planManaged_flags {I : World σ → Prop}
    (h : Blind s [.settings, .installer] [.editor, .discovery] I)
    (hi : ∀ w, I w → w.state.initialized = true) (l : String) (known : Availability) :
    Leads I (planManaged s l known)
      (fun p w => I w ∧ p.language = l ∧
        ∃ x, Prepared x w ∧ p.flags = x.resolve (some l)) I := by
  refine (leads_resolve_known (h.mono (by simp) (by simp)) _).bind fun flags => ?_
  refine Leads.mono (P := fun w => ∃ x, (I w ∧ Prepared x w) ∧ flags = x.resolve (some l)) ?_
    (fun w ⟨hw, x, hx, hflags⟩ => ⟨x, ⟨hw, hx, hi w hw⟩, hflags⟩) (fun _ _ hw => hw) fun _ hw => hw
  rintro w ⟨x, hw, hflags⟩
  have prepared : Blind s [.installer] [.editor, .discovery] fun w => I w ∧ Prepared x w :=
    (h.mono (by simp) (by simp)).and (blind_prepared (by simp) (by simp))
  refine Leads.mono (P := fun w => I w ∧ Prepared x w) (E := fun w => I w ∧ Prepared x w) ?_
    (fun _ h => h) (fun _ _ h => h) (fun _ h => h.1) w hw
  refine (leads_decideOn prepared _).weaken fun p v hv => ⟨hv.1.1, hv.2.language, x, hv.1.2, ?_⟩
  exact hv.2.flags.trans hflags

/-- Planning changes nothing that is shown, and plans with the flags of the language of the
filetype. -/
theorem leads_plan_like (w : World σ) :
    Leads (fun v => Like K lit value v w) (plan s filetype)
      (fun p v => Like K lit value v w ∧ ∀ q ∈ p, language = some q.language ∧
        ∃ x, Prepared x v ∧ q.flags = x.resolve (some q.language))
      fun v => Like K lit value v w := by
  let Ready (v : World σ) : Prop := Like K lit value v w ∧ v.state.initialized = true
  have ready : Blind s [.settings, .installer] [.editor, .discovery] Ready := by
    refine (blind_like hs hK (by simp) (by simp) (by simp)).and (Blind.of_state
      (J := fun st => st.initialized = true) fun p hp st st' hst h => ?_)
    cases hst with
    | initialized => simp at hp
    | _ => exact h
  refine leads_plan_by (J := Ready) (T := fun l => language = some l) ?_
    (fun v hv => ⟨hv.1, nofun⟩) (fun known => ?_) fun known l hl => ?_
  · refine (leads_of_run (Q := Ready) fun v hv => ⟨?_, initialized_prepare v⟩).mono (fun _ hv => hv)
      (fun _ _ hv => hv) fun _ hv => hv.1
    exact keeps_prepare (blind_like hs hK (by simp) (by simp) (by simp)) v hv
  · have found : Blind s [] [.editor] fun v => Ready v ∧
        Assoc.get? v.state.registry filetype = some known :=
      (ready.mono (by simp) (by simp)).and (blind_entry (by simp))
    exact leads_languageFor_of found fun v hv l hl =>
      Except.ok.inj ((hK.languageOf _ hv.1.1.steady).symm.trans hl)
  · refine (leads_planManaged_flags ready (fun _ hv => hv.2) l known).mono (fun v hv => hv.1)
      (fun p v hv => ⟨hv.1.1, fun q hq => ?_⟩) fun v hv => hv.1
    obtain rfl := Option.some.inj hq
    obtain ⟨rfl, hx⟩ := hv.2
    exact ⟨hl, hx⟩

/-- Starting a document shows what it would have shown in a world that shows the same. -/
theorem leads_startAvailable_like {w : World σ} (hw : K w.outside) {x : Settings} (l : String)
    (flags : Flags) {E : World σ → Prop} :
    Leads (fun v => Like K lit value v w ∧ Prepared x v)
      (startAvailable s document filetype l flags)
      (fun _ v => Like K lit value v ((Features.start s document l flags).run w).2 ∧ Prepared x v)
      E := by
  have like : Blind s [.registry] [] fun v => Like K lit value v w ∧ Prepared x v :=
    (blind_like hs hK (by simp) (by simp) (by simp)).and (blind_prepared (by simp) (by simp))
  have prepared : Blind s [] [.features, .options] (Prepared x) :=
    blind_prepared (by simp) (by simp)
  refine (leads_startAvailable_alike (v := w) ((twins_like hs hK).and prepared fun _ _ h => h)
    like.log (fun v hv => ?_) l flags).weaken fun _ v hv => ⟨hv.1.1, hv.2⟩
  have hset := like.write .registry (by simp) v _
    (.registry v.state (v.state.registry.set filetype .available)) hv
  exact ⟨⟨hset.1, hw⟩, hset.2⟩

/-- If attaching a document changes what is shown, then it starts the document with the language of
its filetype. -/
theorem leads_attach_attempted {w : World σ} (hw : K w.outside) :
    Leads (fun v => Like K lit value v w) (attach s document filetype)
      (fun _ => Attempted s K document language lit value w)
      (Attempted s K document language lit value w) := by
  have like : Blind s [.waiters] [] fun v => Like K lit value v w :=
    blind_like hs hK (by simp) (by simp) (by simp)
  have request : ∀ l, Keeps (fun v => Like K lit value v w)
      (Gateway.dispatch s [l] (some .enablement)) := fun l =>
    Gateway.keeps_dispatch (blind_like hs hK (by simp) (by simp) (by simp)) _ _
  refine ((leads_plan_like hs hK w).mono (fun _ hv => hv) (fun _ _ hv => hv) fun _ hv =>
    .inl hv).bind fun p => ?_
  cases p with
  | none => exact leads_pure fun v hv => .inl hv.1
  | some q =>
    rintro v ⟨hv, hplan⟩
    obtain ⟨hl, x, hx, hflags⟩ := hplan q rfl
    let Ready (v : World σ) : Prop := Like K lit value v w ∧ Prepared x v
    have started : Leads Ready (startAvailable s document filetype q.language q.flags)
        (fun _ => Attempted s K document language lit value w)
        (Attempted s K document language lit value w) := by
      rw [hflags]
      exact (leads_startAvailable_like hs hK hw q.language _).weaken fun _ u hu =>
        .inr ⟨q.language, x, hl, hu⟩
    refine (?_ : Leads Ready (carryOut s document filetype (some q)) _ _) v ⟨hv, hx⟩
    simp only [carryOut]
    split
    · exact started
    · exact leads_pure fun u hu => .inl hu.1
    · refine Leads.bind (Q := fun _ u => Like K lit value u w) ?_ fun _ =>
        leads_pure fun u hu => .inl hu
      exact (keeps_installFor like (request _) document filetype).leads.mono (fun u hu => hu.1)
        (fun _ _ hu => hu) fun _ hu => .inl hu
    · refine Leads.bind (Q := fun _ => Ready) (leads_note fun u hu => ?_) fun _ => started
      exact ⟨like.log u _ hu.1, hu.2⟩

end Enablement

/-! ## Stopping -/

namespace Features

omit hs hK in
/-- Forgetting a document forgets all that starting it has changed of the features. -/
theorem drop_start (document : Handle) (l : String) (flags : Flags) (w : World σ) :
    ((start s document l flags).run w).2.state.features.drop document =
      w.state.features.drop document := by
  have blind : Blind s [] [.features, .options] fun v =>
      v.state.features.drop document = w.state.features.drop document :=
    ⟨fun _ _ h => h, by simp, fun _ _ _ h => h⟩
  refine keeps_start_of blind document (fun v t hv => Eq.trans ?_ hv) l flags w rfl
  simp only [World.onFeatures, setOverrides, drop, Assoc.remove_put_self]

omit hs hK in
/-- Forgetting a document that shows no features changes nothing. -/
theorem drop_of_not_isActive {f : Features} (h : f.isActive document = false) :
    f.drop document = f := by
  rw [isActive, Assoc.has, Option.isSome_eq_false_iff, Option.isNone_iff_eq_none] at h
  rw [drop, Assoc.remove_of_get?_eq_none h]

omit hs hK in
/-- Highlighting that can be taken away is. -/
theorem leads_hideHighlights_dark (hl : Highlights s document lit) {E : World σ → Prop} :
    Leads (fun _ => True) (hideHighlights s document) (fun _ v => lit v.outside = none) E := by
  have look : ∀ v : World σ, lit (afterCall s (.isHighlighting document) v).outside =
      lit v.outside := fun v => hl.other _ _ id
  refine Leads.shielded (Leads.bind (Q := fun shown v => shown = (lit v.outside).isSome)
    (leads_ask (fun v shown _ hr => ?_) fun v f _ hr => ?_) fun shown => ?_) fun _ _ h => h
  · rw [look]
    exact (Except.ok.inj ((hl.look v.outside).symm.trans hr)).symm
  · exact absurd ((hl.look v.outside).symm.trans hr) nofun
  · cases shown with
    | true =>
      exact leads_ask (fun v _ _ _ => (hl.darken v.outside).2) fun v f _ _ => (hl.darken v.outside).2
    | false => exact leads_pure fun v hv =>
        Option.isNone_iff_eq_none.mp (Option.isSome_eq_false_iff.mp hv.symm)

omit hs hK in
/-- After it was stopped, a document is not highlighted. -/
theorem leads_stop_dark (hl : Highlights s document lit) {E : World σ → Prop} :
    Leads (fun _ => True) (stop s document) (fun _ v => lit v.outside = none) E := by
  have dark : Blind s [] [.options] fun v => lit v.outside = none := by
    refine ⟨fun _ _ h => h, by simp, fun c hc v h => (hl.other c _ ?_).trans h⟩
    refine Call.not_lights_of_area_ne fun e => ?_
    simp [e] at hc
  refine leads_state_any.bind fun st =>
    (leads_update (Q := fun _ => True) fun _ _ => trivial).bind fun _ => ?_
  refine (leads_hideHighlights_dark hl).bind fun _ => Leads.ite ?_ (leads_pure fun _ h => h)
  refine Leads.bind (Leads.forM (J := fun _ v => lit v.outside = none) fun e _ =>
    leads_restore_any dark document e.2) fun _ => leads_note fun _ h => h

/-- Stopping a document takes back what starting it has shown. -/
theorem leads_stop_back {w z : World σ} {l : String} {flags : Flags}
    (hidle : w.state.features.isActive document = false) (hdark : lit w.outside = none)
    (hz : Like K lit value z ((start s document l flags).run w).2) {E : World σ → Prop} :
    Leads (fun v => v = z) (stop s document)
      (fun _ v => Like K lit value v w ∧ v.state =
        { z.state with features := w.state.features }) E := by
  have none : w.state.features.overrides document = [] := overrides_of_not_isActive hidle
  have progress := Progress.start hs.store document l flags (w := w)
    (none ▸ OverrideTable.proper_nil)
  have proper : (z.state.features.overrides document).Proper :=
    hz.same.features ▸ progress.proper
  have steady : Keeps (fun v => K v.outside) (stop s document) :=
    keeps_stop ⟨fun _ _ h => h, fun _ _ _ _ _ h => h, fun c _ v h => hK.stays c _ h⟩ document
  have dropped : z.state.features.drop document = w.state.features := by
    rw [hz.same.features, drop_start, drop_of_not_isActive hidle]
  refine (((leads_stop hs.store document proper).and
    (leads_stop_dark hs.highlights)).and_keeps steady).mono (fun v hv => ?_)
    (fun _ v hv => ?_) fun _ hv => hv
  · subst hv
    exact ⟨⟨rfl, trivial⟩, hz.steady⟩
  · obtain ⟨⟨⟨hstate, hvalue⟩, hlit⟩, hv⟩ := hv
    rw [dropped] at hstate
    have features : v.state.features = w.state.features := by rw [hstate]
    refine ⟨⟨hv, features, hlit.trans hdark.symm, hvalue.trans ?_⟩, hstate⟩
    -- an option that was written is put back, and any other one is as it was
    funext o
    rw [hz.same.features, progress.saved o, none, hz.same.options]
    by_cases ho : o ∈ written w ((start s document l flags).run w).2
    · simp [ho, OverrideTable.saved?, Assoc.get?]
    · simpa [ho, OverrideTable.saved?, Assoc.get?] using progress.value o ho

end Features

/-! ## Toggling -/

namespace Controller

omit hs in
/-- The current document is the one that is shown. -/
theorem leads_current {P E : World σ → Prop} (hP : Blind s [] [.editor] P)
    (hsteady : ∀ v, P v → K v.outside) :
    Leads P (documentOr s none) (fun d v => d = document ∧ P v) E :=
  leads_ask_of_reply (fun v hv => hK.current _ (hsteady v hv)) fun v hv =>
    hP.ask _ (by simp [Call.area]) v hv

omit hs in
/-- Toggling stops the current document if it is active, and starts it if not. -/
theorem leads_toggle (active : Bool) {P Q E : World σ → Prop} (hP : Blind s [] [.editor] P)
    (hQ : Blind s [] [.editor] Q) (hsteady : ∀ v, P v → K v.outside)
    (hsteady' : ∀ v, Q v → K v.outside)
    (hactive : ∀ v, P v → v.state.features.isActive document = active)
    (hswitch : Leads P (if active then stop s none else start s none none none) (fun _ => Q) E) :
    Leads P (toggle s) (fun outcome v => outcome = (if active then .stopped else .started) ∧ Q v)
      E := by
  have looked : Leads P (isActive s none) (fun b v => b = active ∧ P v) E := by
    refine (leads_current hK hP hsteady).bind fun d => Leads.assume fun hd => ?_
    refine leads_state_eq.bind fun st => leads_pure fun v hv => ⟨?_, hv.2⟩
    rw [hv.1, hd, hactive v hv.2]
  have switched : Leads P (switch s)
      (fun outcome v => outcome = (if active then .stopped else .started) ∧ Q v) E := by
    refine looked.bind fun b => Leads.assume fun hb => ?_
    subst hb
    cases b with
    | true => exact hswitch.bind fun _ => leads_pure fun v hv => ⟨rfl, hv⟩
    | false => exact hswitch.bind fun _ => leads_pure fun v hv => ⟨rfl, hv⟩
  refine switched.bind fun outcome => Leads.assume fun houtcome => ?_
  exact (leads_ask_of_reply (fun v hv => hK.notify _ _ _ (hsteady' v hv)) fun v hv =>
    hQ.ask _ (by simp [Call.area]) v hv).bind fun _ => leads_pure fun v hv => ⟨houtcome, hv.2⟩

omit hs in
/-- The filetype of the current document, if no other one is given. -/
theorem leads_filetype {P E : World σ → Prop} (hP : Blind s [] [.editor] P)
    (hsteady : ∀ v, P v → K v.outside) :
    Leads P (filetypeOr s document none) (fun ft v => ft = filetype ∧ P v) E :=
  leads_ask_of_reply (fun v hv => hK.filetypeOf _ (hsteady v hv)) fun v hv =>
    hP.ask _ (by simp [Call.area]) v hv

omit hs in
/-- A call that names the document and the filetype, or leaves them open, is about them. -/
theorem leads_subject {P E : World σ → Prop} (hP : Blind s [] [.editor] P)
    (hsteady : ∀ v, P v → K v.outside) {d : Option Handle} (hd : ∀ y ∈ d, y = document)
    {ft : Option String} (hft : ∀ y ∈ ft, y = filetype) :
    Leads P (subject s d ft) (fun e v => e = (document, filetype) ∧ P v) E := by
  refine Leads.bind (Q := fun e v => e = document ∧ P v) ?_ fun e => Leads.assume fun he => ?_
  · cases d with
    | none => exact leads_current hK hP hsteady
    | some e => exact leads_pure fun v hv => ⟨hd e rfl, hv⟩
  subst he
  refine Leads.bind (Q := fun g v => g = filetype ∧ P v) ?_ fun g => Leads.assume fun hg => ?_
  · cases ft with
    | none => exact leads_filetype hK hP hsteady
    | some g => exact leads_pure fun v hv => ⟨hft g rfl, hv⟩
  subst hg
  exact leads_pure fun v hv => ⟨rfl, hv⟩

/-- The same for a call that names the document and the filetype, or leaves them open. -/
theorem leads_attach_attempted {w : World σ} (hw : K w.outside) {d : Option Handle}
    (hd : ∀ y ∈ d, y = document) {ft : Option String} (hft : ∀ y ∈ ft, y = filetype) :
    Leads (fun v => Like K lit value v w) (attach s d ft)
      (fun _ => Attempted s K document language lit value w)
      (Attempted s K document language lit value w) := by
  have like : Blind s [] [.editor] fun v => Like K lit value v w :=
    blind_like hs hK (by simp) (by simp) (by simp)
  refine (leads_subject hK like (fun v hv => hv.steady) hd hft).bind fun e =>
    Leads.assume fun he => ?_
  subst he
  exact Enablement.leads_attach_attempted hs hK hw

theorem blind_like_prepared {w : World σ} {x : Settings} :
    Blind s [] [.editor] fun v => Like K lit value v w ∧ Prepared x v :=
  (blind_like hs hK (by simp) (by simp) (by simp)).and (blind_prepared (by simp) (by simp))

/-- Toggling an active document takes back what starting it has shown. -/
theorem leads_toggle_stopped {w : World σ} (hidle : w.state.features.isActive document = false)
    (hdark : lit w.outside = none) {l : String} {flags : Flags} {x : Settings}
    {E : World σ → Prop} :
    Leads (fun v => Like K lit value v ((Features.start s document l flags).run w).2 ∧ Prepared x v)
      (toggle s) (fun outcome v => outcome = .stopped ∧ Like K lit value v w ∧ Prepared x v) E := by
  refine leads_toggle hK true (blind_like_prepared hs hK) (blind_like_prepared hs hK)
    (fun v hv => hv.1.steady) (fun v hv => hv.1.steady) (fun v hv => ?_) ?_
  · rw [hv.1.same.features]
    exact Features.isActive_start document l flags w
  · refine (leads_current hK (blind_like_prepared hs hK) fun v hv => hv.1.steady).bind fun e =>
      Leads.assume fun he => ?_
    subst he
    intro z hz
    refine ((Features.leads_stop_back hs hK hidle hdark hz.1).weaken fun _ v hv => ?_) z rfl
    refine ⟨hv.1, ?_⟩
    unfold Prepared
    rw [hv.2]
    exact hz.2

/-- Toggling a document that is not active starts it, and takes its filetype for the name of its
language. -/
theorem leads_toggle_started {w : World σ} (hw : K w.outside)
    (hidle : w.state.features.isActive document = false) {x : Settings} {E : World σ → Prop} :
    Leads (fun v => Like K lit value v w ∧ Prepared x v) (toggle s)
      (fun outcome v => outcome = .started ∧ Like K lit value v
        ((Features.start s document filetype (x.resolve (some filetype))).run w).2) E := by
  have ready := blind_like_prepared hs hK (w := w) (x := x)
  refine leads_toggle hK false ready
    (blind_like hs hK (by simp) (by simp) (by simp)) (fun v hv => hv.1.steady)
    (fun v hv => hv.steady) (fun v hv => ?_) ?_
  · rw [hv.1.same.features]
    exact hidle
  let Ready (v : World σ) : Prop := Like K lit value v w ∧ Prepared x v
  refine Leads.bind (Q := fun _ => Ready) (fun v hv => ?_) fun _ => ?_
  · rw [Enablement.run_prepare_of_initialized hv.2.2]
    exact hv
  have current : Leads Ready (subject s none none) (fun d v => d = (document, filetype) ∧ Ready v) E :=
    leads_subject hK ready (fun v hv => hv.1.steady) (by simp) (by simp)
  refine current.bind fun d => Leads.assume fun hd => ?_
  subst hd
  refine Leads.bind (Q := fun flags v => flags = x.resolve (some filetype) ∧ Ready v) (fun v hv => ?_)
    fun flags => Leads.assume fun hflags => ?_
  · rw [Enablement.run_resolve hv.2.1]
    exact ⟨rfl, hv⟩
  subst hflags
  exact (Features.leads_start_alike (twins_like hs hK) w filetype _).mono
    (fun v hv => ⟨hv.1, hw⟩) (fun _ v hv => hv.1) fun _ hv => hv

/-- **Toggling twice starts the document anew.** The current document is neither active nor
highlighted, attaching it with its filetype makes it active, and the answers of the editor do not
change. Then toggling returns that it stopped, and goes back to what was shown before the document was
attached. Toggling again returns that it started, and shows what starting the document would have
shown then with its filetype as the language, where attaching has shown what starting it with the
language of the filetype shows. So the document is active again, and if the language is named like
the filetype, the same is shown as after attaching. -/
theorem toggle_twice {w w₁ : World σ} (hw : K w.outside)
    (hidle : w.state.features.isActive document = false) (hdark : lit w.outside = none)
    {d : Option Handle} (hd : ∀ y ∈ d, y = document) {ft : Option String}
    (hft : ∀ y ∈ ft, y = filetype) (h₁ : ((attach s d ft).run w).2 = w₁)
    (hactive : w₁.state.features.isActive document = true) :
    ∃ l x w₂ w₃, language = some l ∧ w₁.state.settings = some x ∧
      (toggle s).run w₁ = (.ok .stopped, w₂) ∧ (toggle s).run w₂ = (.ok .started, w₃) ∧
      ShowsSame lit value w₂ w ∧
      ShowsSame lit value w₁
        ((Features.start s document l (x.resolve (some l))).run w).2 ∧
      ShowsSame lit value w₃
        ((Features.start s document filetype (x.resolve (some filetype))).run w).2 ∧
      w₃.state.features.isActive document = true ∧
      (l = filetype → ShowsSame lit value w₃ w₁) := by
  have attempted : Attempted s K document language lit value w w₁ :=
    h₁ ▸ (leads_attach_attempted hs hK hw hd hft).run ⟨hw, .refl w⟩
  obtain ⟨l, x, hl, like, prepared⟩ := attempted.resolve_left fun h => by
    rw [h.same.features, hidle] at hactive
    cases hactive
  obtain ⟨_, hok₂, rfl, back⟩ := (leads_toggle_stopped hs hK hidle hdark
    (E := fun _ => False)).exists_ok ⟨like, prepared⟩
  obtain ⟨_, hok₃, rfl, again⟩ := (leads_toggle_started hs hK hw hidle
    (E := fun _ => False)).exists_ok back
  refine ⟨l, x, _, _, hl, prepared.1, Prod.ext hok₂ rfl, Prod.ext hok₃ rfl, back.1.same, like.same,
    again.same, ?_, ?_⟩
  · rw [again.same.features]
    exact Features.isActive_start document filetype _ w
  · rintro rfl
    exact again.same.trans like.same.symm

omit hs hK

/-- An editor that never fails, with a document of typescriptreact, a filetype of tsx. Its state
is the options and what is highlighted. -/
def typedEditor : Surroundings ((Slot → Value) × (Handle → Option String)) where
  reply
    | .filetypes l, x => (.ok [if l = "tsx" then "typescriptreact" else l], x)
    | .languageOf ft, x => (.ok (some (if ft = "typescriptreact" then "tsx" else ft)), x)
    | .addLanguage _, x => (.ok (.bool true), x)
    | .query _ name, x => (.ok (.text name), x)
    | .startHighlighting d l, x => (.ok (), x.1, Function.update x.2 d (some l))
    | .stopHighlighting d, x => (.ok (), x.1, Function.update x.2 d none)
    | .isHighlighting d, x => (.ok (x.2 d).isSome, x)
    | .currentDocument, x => (.ok (.number 1), x)
    | .filetypeOf _, x => (.ok "typescriptreact", x)
    | .viewOf _, x => (.ok (.number 10), x)
    | .getOption scope handle name, x => (.ok (x.1 ⟨scope, handle, name⟩), x)
    | .setOption scope handle name v, x =>
      (.ok (), Function.update x.1 ⟨scope, handle, name⟩ v, x.2)
    | .bundledPaths, x => (.ok [], x)
    | .isValid _, x => (.ok true, x)
    | .notify _ _, x => (.ok (), x)
    | .findInstaller, x => (.ok false, x)
    | .entryPoints _, x => (.ok [], x)
    | .loadEntryPoint _ _, x => (.ok (), x)
    | .makeInstaller _ _, x => (.ok .null, x)
    | .install _, x => (.ok (.now .null), x)
    | .collect _, x => (.ok .null, x)
    | .tell _ _ _, x => (.ok ⟨[], none⟩, x)
  machine _ := .empty

/-- Highlights are shown for all languages, and lines are indented for tsx only. -/
def typedWorld : World ((Slot → Value) × (Handle → Option String)) :=
  .fresh (fun _ => .text "user", fun _ => none)
    { settings := some
        { parsers := ["tsx"]
          flags := { highlights := true }
          overrides := [("tsx", { highlights := true, indents := true })] } }

theorem typedEditor_screen :
    Screen typedEditor (.number 1) (fun x => x.2 (.number 1)) Prod.fst where
  store :=
    { read := fun _ _ => rfl
      accept := fun _ _ _ => rfl
      write := fun _ _ _ => rfl
      other := fun c x h => by cases c <;> first | rfl | exact absurd h (by simp [Call.written?]) }
  highlights :=
    { look := fun _ => rfl
      light := fun _ _ => ⟨rfl, by simp [typedEditor]⟩
      darken := fun _ => ⟨rfl, by simp [typedEditor]⟩
      other := fun c x h => by
        cases c with
        | startHighlighting d l => exact Function.update_of_ne (Ne.symm h) _ _
        | stopHighlighting d => exact Function.update_of_ne (Ne.symm h) _ _
        | _ => rfl }

theorem typedEditor_steady :
    Steady typedEditor (fun _ => True) (.number 1) "typescriptreact" (some "tsx") where
  stays _ _ _ := trivial
  query _ _ _ _ _ _ := rfl
  viewOf _ _ _ _ := rfl
  current _ _ := rfl
  filetypeOf _ _ := rfl
  languageOf _ _ := rfl
  notify _ _ _ _ := rfl

/-- The document of typescriptreact is attached and toggled twice. -/
theorem toggle_twice_typed :
    let s := typedEditor
    let w₁ := ((attach s none none).run typedWorld).2
    let w₂ := ((toggle s).run w₁).2
    let w₃ := ((toggle s).run w₂).2
    w₁.state.features.isActive (.number 1) = true ∧
      ((toggle s).run w₁).1 = .ok .stopped ∧ ((toggle s).run w₂).1 = .ok .started ∧
      w₂.outside.1 = typedWorld.outside.1 ∧ w₃.state.features.isActive (.number 1) = true := by
  intro s w₁ w₂ w₃
  have active : w₁.state.features.isActive (.number 1) = true := by decide +kernel
  have unnamed : ∀ y ∈ (none : Option Handle), y = .number 1 := nofun
  have untyped : ∀ y ∈ (none : Option String), y = "typescriptreact" := nofun
  obtain ⟨l, x, v₂, v₃, -, -, hrun₂, hrun₃, back, -, -, again, -⟩ :=
    toggle_twice typedEditor_screen typedEditor_steady (w := typedWorld) trivial (by decide) rfl
      unnamed untyped rfl active
  obtain rfl : w₂ = v₂ := congrArg Prod.snd hrun₂
  obtain rfl : w₃ = v₃ := congrArg Prod.snd hrun₃
  exact ⟨active, congrArg Prod.fst hrun₂, congrArg Prod.fst hrun₃, back.options, again⟩

/-- Attaching highlights the document with tsx and has its lines indented, but after toggling twice
it is highlighted with typescriptreact, as if that were a language, and its lines are not indented. -/
theorem toggle_changes_language :
    let s := typedEditor
    let indent : Slot := ⟨.document, .number 1, "indentexpr"⟩
    let w₁ := ((attach s none none).run typedWorld).2
    let w₂ := ((toggle s).run w₁).2
    let w₃ := ((toggle s).run w₂).2
    Initial typedWorld ∧ (∀ c x, ∃ r, (s.reply c x).1 = .ok r) ∧
      typedWorld.state.features.isActive (.number 1) = false ∧
      typedWorld.outside.2 (.number 1) = none ∧
      w₁.state.features.isActive (.number 1) = true ∧
      w₁.outside.2 (.number 1) = some "tsx" ∧ w₃.outside.2 (.number 1) = some "typescriptreact" ∧
      (w₁.outside.1 indent).same (w₃.outside.1 indent) = false := by
  intro s indent w₁ w₂ w₃
  refine ⟨⟨rfl, rfl⟩, fun c x => ?_, by decide, rfl, ?_, ?_, ?_, ?_⟩
  · cases c <;> exact ⟨_, rfl⟩
  all_goals decide +kernel

end Controller

end TreeFeatures
