import Mathlib.Logic.Function.Conjugate
import TreeFeatures.Proofs.Features.Toggle
import TreeFeatures.Proofs.Settings.Tables

/-!
# Surroundings that can be foreseen

While the answers of the surroundings depend on the call only, what showing the features of a
document does to options and highlighting is a function of these.

* `Answers` are the answers, and `Predictable` are surroundings that give them: what is read of an
  option depends on its value, and any call may fail, but then it always does.
* `Answers.bring` is overriding an option, `Answers.paint` what showing features does to the options
  and `Answers.light` what it does to the highlighting.
* `Calm`: a property that asking for queries does not make false. `leads_start_calm`: showing
  features, piece by piece.
* `leads_start_drawn`: showing features paints the options and lights the document.
* `paint_commute`, `light_commute`: it does not matter which of two documents comes first, also if
  they are in the same view.
-/

namespace TreeFeatures

open Act

/-- The answers to all calls. What is read of an option depends on the value that it has. -/
structure Answers where
  reply : (c : Call) → Except Fault c.Reply
  look : Slot → Value → Except Fault Value

instance : CoeFun Answers fun _ => (c : Call) → Except Fault c.Reply := ⟨Answers.reply⟩

/-- The calls by which documents are attached once the program is set up, reads of options aside. -/
def Call.Foreseen : Call → Prop
  | languageOf _ | addLanguage _ | query _ _ | startHighlighting _ _ | viewOf _
  | setOption _ _ _ _ | findInstaller | entryPoints _ | loadEntryPoint _ _ | makeInstaller _ _ =>
    True
  | _ => False

variable {σ : Type} {s : Surroundings σ} {K : σ → Prop} {a : Answers}
  {value : σ → Slot → Value} {lit : σ → Handle → Option String}

/-- Surroundings that give the same answer to the same call, in the states with `K`. An option has the
value that was written last, if that did not fail, and a document is highlighted with the language of
the last call that asked for it and did not fail. -/
structure Predictable (s : Surroundings σ) (K : σ → Prop) (a : Answers) (value : σ → Slot → Value)
    (lit : σ → Handle → Option String) : Prop where
  stays : ∀ c x, K x → K (s.reply c x).2
  answers : ∀ c : Call, c.Foreseen → ∀ x, K x → (s.reply c x).1 = a c
  look : ∀ (o : Slot) x, K x →
    (s.reply (.getOption o.scope o.handle o.name) x).1 = a.look o (value x o)
  write : ∀ (o : Slot) v x, K x →
    value (s.reply (.setOption o.scope o.handle o.name v) x).2 =
      if (a (.setOption o.scope o.handle o.name v)).isOk then Function.update (value x) o v
      else value x
  unwritten : ∀ c x, K x → c.written? = none → value (s.reply c x).2 = value x
  light : ∀ d l x, K x → lit (s.reply (.startHighlighting d l) x).2 =
    if (a (.startHighlighting d l)).isOk then Function.update (lit x) d (some l) else lit x
  unlit : ∀ c x, K x → (∀ d, ¬ c.Lights d) → lit (s.reply c x).2 = lit x

/-- The answers of the editor that never fails do not change. -/
theorem typedEditor_predictable :
    Predictable Controller.typedEditor (fun _ => True)
      ⟨fun c => (Controller.typedEditor.reply c (fun _ => .text "user", fun _ => none)).1,
        fun _ v => .ok v⟩
      Prod.fst Prod.snd where
  stays _ _ _ := trivial
  answers c hc x _ := by cases c <;> first | rfl | exact hc.elim
  look _ _ _ := rfl
  write _ _ _ _ := rfl
  unwritten c x _ := Controller.typedEditor_screen.store.other c x
  light _ _ _ _ := rfl
  unlit c x _ h := by
    cases c with
    | startHighlighting d l => exact absurd rfl (h d)
    | stopHighlighting d => exact absurd rfl (h d)
    | _ => rfl

namespace Answers

/-- Whether a language has a query. -/
def provides (a : Answers) (language name : String) : Bool :=
  match a (.query language name) with
  | .error _ => false
  | .ok .null => false
  | .ok _ => true

/-- The value of an option after it was overridden, and whether that succeeded. -/
def overridden (a : Answers) (o : Slot) (target : String) (v : Value) : Value × Bool :=
  match a.look o v with
  | .error _ => (v, false)
  | .ok current =>
    if current.same (.text target) then (v, true)
    else if (a (.setOption o.scope o.handle o.name (.text target))).isOk then (.text target, true)
    else (v, false)

/-- The options after one of them was overridden. -/
def bring (a : Answers) (o : Slot) (target : String) (x : Slot → Value) : Slot → Value :=
  Function.update x o (a.overridden o target (x o)).1

/-- The options after folding was shown in a view: the second one is only overridden if that of the
first one succeeded. -/
def foldIn (a : Answers) (t : Targets) (view : Handle) (x : Slot → Value) : Slot → Value :=
  let method : Slot := ⟨.view, view, "foldmethod"⟩
  let expr : Slot := ⟨.view, view, "foldexpr"⟩
  if (a.overridden method t.foldMethod (x method)).2 then
    a.bring expr t.foldExpr (a.bring method t.foldMethod x)
  else a.bring method t.foldMethod x

/-- The view in which folding is shown for a document, if there is one. -/
def folds? (a : Answers) (document : Handle) (language : String) (flags : Flags) : Option Handle :=
  if flags.folds && a.provides language "folds" then (a (.viewOf document)).toOption else none

/-- The options after folding was shown for a document. -/
def fold (a : Answers) (t : Targets) (document : Handle) (language : String) (flags : Flags) :
    (Slot → Value) → Slot → Value :=
  match a.folds? document language flags with
  | some view => a.foldIn t view
  | none => id

/-- The options after indenting was shown for a document. -/
def indent (a : Answers) (t : Targets) (document : Handle) (language : String) (flags : Flags) :
    (Slot → Value) → Slot → Value :=
  if flags.indents && a.provides language "indents" then
    a.bring ⟨.document, document, "indentexpr"⟩ t.indentExpr
  else id

/-- The options after the features of a document were shown. -/
def paint (a : Answers) (t : Targets) (document : Handle) (language : String) (flags : Flags) :
    (Slot → Value) → Slot → Value :=
  a.indent t document language flags ∘ a.fold t document language flags

/-- The highlighting after the features of a document were shown. -/
def light (a : Answers) (document : Handle) (language : String) (flags : Flags)
    (y : Handle → Option String) : Handle → Option String :=
  if flags.highlights && a.provides language "highlights" &&
      (a (.startHighlighting document language)).isOk then
    Function.update y document (some language)
  else y

end Answers

/-! ## Pieces -/

/-- A property of worlds whose answers do not change, which neither the log nor asking for a query
makes false. -/
structure Calm (s : Surroundings σ) (K : σ → Prop) (P : World σ → Prop) : Prop where
  steady : ∀ w, P w → K w.outside
  log : ∀ w l, P w → P { w with log := l }
  query : ∀ l name w, P w → P (afterCall s (.query l name) w)

namespace Features

variable (hK : Predictable s K a value lit) {P A B C D E : World σ → Prop}

include hK

/-- Whether there is a query is foreseen. -/
theorem leads_hasQuery_calm (hP : Calm s K P) (l name : String) :
    Leads P (hasQuery s l name) (fun b w => b = a.provides l name ∧ P w) E := by
  refine Leads.bind (Q := fun r w => r = a (.query l name) ∧ P w)
    (leads_attempt_ask fun w hw => ⟨hK.answers (.query l name) trivial _ (hP.steady w hw),
      hP.query l name w hw⟩) fun r => Leads.assume fun hr => ?_
  unfold Answers.provides
  rw [← hr]
  rcases r with f | v
  · exact Leads.bind (Q := fun _ => P) (leads_note fun w hw => hP.log w _ hw) fun _ =>
      leads_pure fun w hw => ⟨rfl, hw⟩
  · cases v <;> exact leads_pure fun w hw => ⟨rfl, hw⟩

/-- Something that is done exactly if a feature is asked for and the language has the query. -/
theorem leads_whenProvided_calm (hA : Calm s K A) (wanted : Bool) (l name : String)
    {act : Act σ Unit}
    (hact : (wanted && a.provides l name) = true → Leads A act (fun _ => B) E)
    (hskip : (wanted && a.provides l name) = false → ∀ w, A w → B w) :
    Leads A (whenProvided s wanted l name act) (fun _ => B) E := by
  unfold whenProvided
  split
  · next hwanted =>
    refine (leads_hasQuery_calm hK hA l name).bind fun b => Leads.assume fun hb => ?_
    rw [← hb, hwanted, Bool.true_and] at hact hskip
    split
    · next hb => exact hact hb
    · next hb => exact leads_pure (hskip (Bool.eq_false_iff.mpr hb))
  · next hwanted =>
    refine leads_pure (hskip ?_)
    rw [Bool.eq_false_iff.mpr hwanted, Bool.false_and]

/-- Showing features counts the document among the active ones and then shows one feature after the
other. It does not fail. -/
theorem leads_start_calm (document : Handle) (l : String) (flags : Flags)
    (hactivate : ∀ w, P w → A (w.onFeatures fun f => f.activate document))
    (hA : Calm s K A) (hB : Calm s K B) (hC : Calm s K C) (hD : ∀ w k, D w → D { w with log := k })
    (hlight : (flags.highlights && a.provides l "highlights") = true →
      Leads A (showHighlights s document l) (fun _ => B) E)
    (hdark : (flags.highlights && a.provides l "highlights") = false → ∀ w, A w → B w)
    (hfold : (flags.folds && a.provides l "folds") = true →
      Leads B (showFolds s document l) (fun _ => C) E)
    (hflat : (flags.folds && a.provides l "folds") = false → ∀ w, B w → C w)
    (hindent : (flags.indents && a.provides l "indents") = true →
      Leads C (showIndents s document l) (fun _ => D) E)
    (hplain : (flags.indents && a.provides l "indents") = false → ∀ w, C w → D w) :
    Leads P (start s document l flags) (fun _ => D) E := by
  refine (leads_update hactivate).bind fun _ => ?_
  refine (leads_whenProvided_calm hK hA _ _ _ hlight hdark).bind fun _ => ?_
  refine (leads_whenProvided_calm hK hB _ _ _ hfold hflat).bind fun _ => ?_
  exact (leads_whenProvided_calm hK hC _ _ _ hindent hplain).bind fun _ =>
    leads_note fun w hw => hD w _ hw

end Features

/-! ## What is drawn -/

/-- A world with given options, highlighting and target values, whose answers do not change and whose
records stand where they belong. -/
structure Drawn (K : σ → Prop) (value : σ → Slot → Value) (lit : σ → Handle → Option String)
    (t : Targets) (x : Slot → Value) (y : Handle → Option String) (w : World σ) : Prop where
  steady : K w.outside
  options : value w.outside = x
  highlighting : lit w.outside = y
  targets : w.state.features.targets = t
  tidy : w.state.features.Tidy

variable {t : Targets} {x : Slot → Value} {y : Handle → Option String}

theorem Drawn.proceeds {w : World σ} (h : Drawn K value lit t x y w) {f : Features → Features}
    (hf : w.state.features.Proceeds (f w.state.features)) :
    Drawn K value lit t x y (w.onFeatures f) :=
  { h with targets := hf.targets.trans h.targets, tidy := hf.tidy h.tidy }

namespace Features

variable (hK : Predictable s K a value lit) {E : World σ → Prop} {document : Handle}

include hK

/-- A call that neither writes an option nor changes the highlighting changes nothing that is
drawn. -/
theorem drawn_ask {c : Call} (hwritten : c.written? = none) (hlit : ∀ d, ¬ c.Lights d)
    {w : World σ} (h : Drawn K value lit t x y w) : Drawn K value lit t x y (afterCall s c w) :=
  { h with
    steady := hK.stays c _ h.steady
    options := (hK.unwritten c _ h.steady hwritten).trans h.options
    highlighting := (hK.unlit c _ h.steady hlit).trans h.highlighting }

theorem calm_drawn : Calm s K (Drawn K value lit t x y) where
  steady _ hw := hw.steady
  log _ _ hw := { hw with }
  query _ _ _ hw := drawn_ask hK rfl (fun _ => id) hw

/-- Writing a target where it is foreseen what can be read and written. -/
theorem leads_apply_drawn {o : Slot} {r : Override} {target : String} (hn : r.name = o.name)
    (hc : r.scope = o.scope) (ht : r.target = .text target) :
    Leads (Drawn K value lit t x y) (r.apply s o.handle)
      (fun q w => q.2.isOk = (a.overridden o target (x o)).2 ∧
        Drawn K value lit t (a.bring o target x) y w) E := by
  unfold Override.apply
  rw [hn, hc, ht]
  refine Leads.bind (Q := fun answer w => answer = a.look o (x o) ∧ Drawn K value lit t x y w)
    (leads_attempt_ask fun w hw => ?_) fun answer => Leads.assume fun hanswer => ?_
  · rw [← hw.options]
    exact ⟨hK.look o _ hw.steady, hw.options.symm ▸ drawn_ask hK rfl (fun _ => id) hw⟩
  simp only [Answers.bring, Answers.overridden, ← hanswer]
  rcases answer with f | current
  · rw [Function.update_eq_self]
    exact leads_pure fun w hw => ⟨rfl, hw⟩
  dsimp only
  split
  · rw [Function.update_eq_self]
    exact leads_pure fun w hw => ⟨rfl, hw⟩
  let c : Call := .setOption o.scope o.handle o.name (.text target)
  let z : Slot → Value := if (a c).isOk then Function.update x o (.text target) else x
  refine Leads.bind (Q := fun answer w => answer.isOk = (a c).isOk ∧ Drawn K value lit t z y w)
    (leads_attempt_ask fun w hw => ?_) fun answer => leads_pure fun w hw => ?_
  · refine ⟨congrArg Except.isOk (hK.answers c trivial _ hw.steady), { hw with
      steady := hK.stays c _ hw.steady
      options := ?_
      highlighting := (hK.unlit c _ hw.steady fun _ => id).trans hw.highlighting }⟩
    show value (s.reply c w.outside).2 = z
    rw [hK.write o _ _ hw.steady, hw.options]
  · have ok : (answer.map fun _ => true).isOk = (a c).isOk := by
      rw [← hw.1]
      cases answer <;> rfl
    refine ⟨ok.trans ?_, ?_⟩
    · show (a c).isOk = (if (a c).isOk then _ else _ : Value × Bool).2
      cases (a c).isOk <;> rfl
    · have written : Function.update x o
          (if (a c).isOk then (Value.text target, true) else (x o, false)).1 = z := by
        unfold z
        cases (a c).isOk
        · exact Function.update_eq_self o x
        · rfl
      exact written ▸ hw.2

/-- Overriding an option brings it to the target. It fails if that did not succeed. -/
theorem leads_override_drawn (document : Handle) {o : Slot} (ho : o.scope = scopeOf o.name)
    (target : String) :
    Leads (Drawn K value lit t x y) (override s document o.name o.scope target o.handle)
      (fun _ w => (a.overridden o target (x o)).2 = true ∧
        Drawn K value lit t (a.bring o target x) y w)
      (fun w => (a.overridden o target (x o)).2 = false ∧
        Drawn K value lit t (a.bring o target x) y w) := by
  refine leads_override_by (Q := fun b w => (a.overridden o target (x o)).2 = b ∧
    Drawn K value lit t (a.bring o target x) y w) (fun u hu => ?_) (fun b w r hw hr => ?_)
    fun w l hw => ⟨hw.1, { hw.2 with }⟩
  · have filed := (hu.tidy document).filed_record ho (.text target)
    exact (leads_apply_drawn (E := fun _ => False) hK filed.name (filed.scope.trans ho.symm)
      (OverrideTable.target_record _ _ _ _ _)).mono (fun _ hw => hw ▸ hu)
      (fun _ _ hw => ⟨hw.1.symm, hw.2⟩) fun _ => False.elim
  · exact ⟨hw.1, hw.2.proceeds (.override _ document ho hr)⟩

/-- Highlighting lights the document, unless that fails. -/
theorem leads_showHighlights_drawn (l : String) :
    Leads (Drawn K value lit t x y) (showHighlights s document l)
      (fun _ => Drawn K value lit t x
        (if (a (.startHighlighting document l)).isOk then Function.update y document (some l) else y))
      E := by
  refine Leads.shielded (leads_of_run fun w hw => ?_) fun w k hw => { hw with }
  exact { hw with
    steady := hK.stays _ _ hw.steady
    options := (hK.unwritten _ _ hw.steady rfl).trans hw.options
    highlighting := hw.highlighting ▸ hK.light document l _ hw.steady }

/-- Folding is shown in the view of the document, if there is one. -/
theorem leads_showFolds_drawn {l : String} {flags : Flags}
    (hwanted : (flags.folds && a.provides l "folds") = true) :
    Leads (Drawn K value lit t x y) (showFolds s document l)
      (fun _ => Drawn K value lit t (a.fold t document l flags x) y) E := by
  have folds : a.folds? document l flags = (a (.viewOf document)).toOption := if_pos hwanted
  simp only [Answers.fold, folds]
  refine Leads.shielded (leads_state_eq.bind fun st => ?_) fun w k hw => { hw with }
  refine Leads.mono (P := fun w => st.features.targets = t ∧ Drawn K value lit t x y w)
    (Leads.assume fun ht => ?_) (fun w hw => ⟨hw.1 ▸ hw.2.targets, hw.2⟩) (fun _ _ hw => hw)
    fun _ hw => hw
  dsimp only
  rw [ht]
  have foreseen : ∀ w, Drawn K value lit t x y w →
      (s.reply (.viewOf document) w.outside).1 = a (.viewOf document) :=
    fun w hw => hK.answers (.viewOf document) trivial _ hw.steady
  have asked : ∀ w, Drawn K value lit t x y w →
      Drawn K value lit t x y (afterCall s (.viewOf document) w) :=
    fun w hw => drawn_ask hK rfl (fun _ => id) hw
  cases hview : a (.viewOf document) with
  | error f =>
    refine Leads.bind (Q := fun _ _ => False) (leads_ask (fun w v hw hv => ?_)
      fun w _ hw _ => asked w hw) fun _ _ => False.elim
    rw [foreseen w hw, hview] at hv
    cases hv
  | ok view =>
    refine (leads_ask_of_reply (fun w hw => (foreseen w hw).trans hview) asked).bind fun h =>
      Leads.assume fun hh => ?_
    subst hh
    simp only [Except.toOption, Answers.foldIn]
    have method := leads_override_drawn hK (t := t) (x := x) (y := y) document
      (o := ⟨.view, h, "foldmethod"⟩) rfl t.foldMethod
    refine (method.mono (fun _ hw => hw) (fun _ _ hw => hw) fun w hw => ?_).bind fun _ =>
      Leads.assume fun hbrought => ?_
    · rw [if_neg (Bool.eq_false_iff.mp hw.1)]
      exact hw.2
    · rw [if_pos hbrought]
      exact (leads_override_drawn hK document (o := ⟨.view, h, "foldexpr"⟩) rfl t.foldExpr).mono
        (fun _ hw => hw) (fun _ _ hw => hw.2) fun _ hw => hw.2

theorem leads_showIndents_drawn (l : String) :
    Leads (Drawn K value lit t x y) (showIndents s document l)
      (fun _ => Drawn K value lit t
        (a.bring ⟨.document, document, "indentexpr"⟩ t.indentExpr x) y) E := by
  refine Leads.shielded (leads_state_eq.bind fun st => ?_) fun w k hw => { hw with }
  refine Leads.mono (P := fun w => st.features.targets = t ∧ Drawn K value lit t x y w)
    (Leads.assume fun ht => ?_) (fun w hw => ⟨hw.1 ▸ hw.2.targets, hw.2⟩) (fun _ _ hw => hw)
    fun _ hw => hw
  dsimp only
  rw [ht]
  exact (leads_override_drawn hK document (o := ⟨.document, document, "indentexpr"⟩) rfl _).mono
    (fun _ hw => hw) (fun _ _ hw => hw.2) fun _ hw => hw.2

/-- **Showing features paints the options and lights the document.** -/
theorem leads_start_drawn (l : String) (flags : Flags) :
    Leads (Drawn K value lit t x y) (start s document l flags)
      (fun _ => Drawn K value lit t (a.paint t document l flags x) (a.light document l flags y))
      E := by
  refine leads_start_calm hK document l flags
    (fun w hw => hw.proceeds (f := fun f => f.activate document) (.activate _ document))
    (calm_drawn hK) (B := Drawn K value lit t x (a.light document l flags y)) (calm_drawn hK)
    (C := Drawn K value lit t (a.fold t document l flags x) (a.light document l flags y))
    (calm_drawn hK) (fun w k hw => { hw with }) (fun h => ?_) (fun h w hw => ?_) (fun h => ?_)
    (fun h w hw => ?_) (fun h => ?_) (fun h w hw => ?_)
  · simp only [Answers.light, h, Bool.true_and]
    exact leads_showHighlights_drawn hK l
  · simp only [Answers.light, h, Bool.false_and]
    exact hw
  · exact leads_showFolds_drawn hK h
  · simp only [Answers.fold, Answers.folds?, h]
    exact hw
  · simp only [Answers.paint, Answers.indent, h]
    exact leads_showIndents_drawn hK l
  · simp only [Answers.paint, Answers.indent, h]
    exact hw

end Features

/-! ## Two documents -/

/-- A change of options that reads and writes only some of them. -/
structure Within (A : Slot → Prop) (f : (Slot → Value) → Slot → Value) : Prop where
  frame : ∀ x o, ¬ A o → f x o = x o
  reads : ∀ x y, (∀ o, A o → x o = y o) → ∀ o, A o → f x o = f y o

namespace Within

variable {A B : Slot → Prop} {f g : (Slot → Value) → Slot → Value}

/-- Changes of different options commute. -/
theorem commute (hf : Within A f) (hg : Within B g) (h : ∀ o, A o → ¬ B o) :
    Function.Commute f g := by
  intro x
  funext o
  by_cases hA : A o
  · rw [hg.frame (f x) o (h o hA)]
    exact hf.reads _ _ (fun o ho => hg.frame x o (h o ho)) o hA
  · rw [hf.frame (g x) o hA]
    by_cases hB : B o
    · exact (hg.reads _ _ (fun o ho => hf.frame x o fun hA => h o hA ho) o hB).symm
    · rw [hg.frame _ o hB, hg.frame _ o hB, hf.frame _ o hA]

theorem id : Within A id := ⟨fun _ _ _ => rfl, fun _ _ h => h⟩

theorem bring (a : Answers) {o : Slot} (ho : A o) (target : String) :
    Within A (a.bring o target) where
  frame x o' h := Function.update_of_ne (by rintro rfl; exact h ho) _ _
  reads x y h o' ho' := by
    unfold Answers.bring
    by_cases e : o' = o
    · rw [e, Function.update_self, Function.update_self, h o ho]
    · rw [Function.update_of_ne e, Function.update_of_ne e]
      exact h o' ho'

end Within

/-- The options of a view or a document. -/
def Slot.Of (scope : Scope) (handle : Handle) (o : Slot) : Prop :=
  o.scope = scope ∧ o.handle = handle

theorem Slot.Of.ne {scope scope' : Scope} {handle handle' : Handle}
    (h : scope ≠ scope' ∨ handle ≠ handle') (o : Slot) (ho : o.Of scope handle) :
    ¬ o.Of scope' handle' :=
  fun ho' => h.elim (fun h => h (ho.1.symm.trans ho'.1)) fun h => h (ho.2.symm.trans ho'.2)

namespace Answers

variable (a : Answers) (t : Targets)

theorem within_foldIn (view : Handle) : Within (Slot.Of .view view) (a.foldIn t view) := by
  have method : Within (Slot.Of .view view) (a.bring ⟨.view, view, "foldmethod"⟩ t.foldMethod) :=
    .bring a ⟨rfl, rfl⟩ _
  have expr : Within (Slot.Of .view view) (a.bring ⟨.view, view, "foldexpr"⟩ t.foldExpr) :=
    .bring a ⟨rfl, rfl⟩ _
  unfold foldIn
  refine ⟨fun x o ho => ?_, fun x y h o ho => ?_⟩
  · rw [ite_apply]
    split
    · rw [expr.frame _ o ho, method.frame _ o ho]
    · exact method.frame _ o ho
  · -- the second option is overridden from both or from neither
    rw [h ⟨.view, view, "foldmethod"⟩ ⟨rfl, rfl⟩, ite_apply, ite_apply]
    split
    · exact expr.reads _ _ (method.reads x y h) o ho
    · exact method.reads x y h o ho

theorem foldIn_commute (view view' : Handle) :
    Function.Commute (a.foldIn t view) (a.foldIn t view') := by
  by_cases e : view = view'
  · rw [e]
  · exact (a.within_foldIn t view).commute (a.within_foldIn t view') (Slot.Of.ne (.inr e))

theorem within_indent (document : Handle) (l : String) (flags : Flags) :
    Within (Slot.Of .document document) (a.indent t document l flags) := by
  unfold indent
  split
  · exact .bring a ⟨rfl, rfl⟩ _
  · exact .id

variable {d d' : Handle} (l l' : String) (flags flags' : Flags)

theorem fold_commute :
    Function.Commute (a.fold t d l flags) (a.fold t d' l' flags') := by
  unfold fold
  cases a.folds? d l flags with
  | none => exact .id_left
  | some view =>
    cases a.folds? d' l' flags' with
    | none => exact .id_right
    | some view' => exact a.foldIn_commute t view view'

theorem fold_commute_indent :
    Function.Commute (a.fold t d l flags) (a.indent t d' l' flags') := by
  unfold fold
  cases a.folds? d l flags with
  | none => exact .id_left
  | some view =>
    exact (a.within_foldIn t view).commute (a.within_indent t d' l' flags') (Slot.Of.ne (.inl nofun))

/-- **The order in which the features of two documents are shown does not matter to the options**,
also if both are in the same view. -/
theorem paint_commute (hd : d ≠ d') :
    Function.Commute (a.paint t d l flags) (a.paint t d' l' flags') := by
  have indents : Function.Commute (a.indent t d l flags) (a.indent t d' l' flags') :=
    (a.within_indent t d l flags).commute (a.within_indent t d' l' flags') (Slot.Of.ne (.inr hd))
  refine Function.Commute.comp_left (.comp_right indents ?_) (.comp_right ?_ ?_)
  · exact (a.fold_commute_indent t l' l flags' flags).symm
  · exact a.fold_commute_indent t l l' flags flags'
  · exact a.fold_commute t l l' flags flags'

theorem light_commute (hd : d ≠ d') : Function.Commute (a.light d l flags) (a.light d' l' flags') := by
  intro y
  unfold light
  split <;> split
  · exact Function.update_comm (Ne.symm hd) _ _ _
  all_goals rfl

end Answers

end TreeFeatures
