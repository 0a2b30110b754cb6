import TreeFeatures.Proofs.Features.Parts
import TreeFeatures.Proofs.Settings.Tables

/-!
# When a feature that fails is skipped whole

Any call that a start makes for a feature may fail, also in the middle of it. A feature that fails
should leave no option changed. Highlighting changes none, and indentation only one, by its last
call. Folding writes one option and then asks about another: if that fails, the first one stays
written.

* `Overriding` is what overriding one option comes to, with the answers to its calls.
* `Told` is what a start comes to for one feature; `leads_start_known`.
* `Torn`: a fold method was written and the fold expression of the same view failed.
* **`skipped_whole_iff`**: a feature that fails changes no option, unless it is torn.
-/

namespace TreeFeatures

open Act

namespace Moment

/-- The option that a call was about. -/
def option? : Moment → Option Slot
  | .answered (.getOption scope handle name) _ => some ⟨scope, handle, name⟩
  | .answered (.setOption scope handle name _) _ => some ⟨scope, handle, name⟩
  | _ => none

/-- Whether a call failed. -/
def failed : Moment → Bool
  | .answered _ (.error _) => true
  | _ => false

/-- The option that was written. -/
def landed? : Moment → Option Slot
  | .answered (.setOption scope handle name _) (.ok _) => some ⟨scope, handle, name⟩
  | _ => none

/-- The option that could not be read or written. -/
def missed? (m : Moment) : Option Slot := if m.failed then m.option? else none

theorem landed?_of_option? {m : Moment} (h : m.option? = none) : m.landed? = none := by
  cases m with
  | answered c r => cases c <;> first | rfl | cases h
  | _ => rfl

theorem feature?_of_landed? {m : Moment} {o : Slot} (h : m.landed? = some o) :
    m.feature? = o.feature? := by
  cases m with
  | answered c r =>
    cases c <;> cases r <;> cases h
    rfl
  | _ => cases h

theorem feature?_of_option? {m : Moment} {o : Slot} (h : m.option? = some o) :
    m.feature? = o.feature? := by
  cases m with
  | answered c r => cases c <;> cases h <;> rfl
  | _ => cases h

theorem missed?_of_option? {m : Moment} (h : m.option? = none) : m.missed? = none := by
  rw [missed?, h, ite_self]

end Moment

/-- The option of a view that says how it is folded. -/
def foldMethodOf (view : Handle) : Slot := ⟨.view, view, "foldmethod"⟩

/-- The option of a view that has its fold expression. -/
def foldExprOf (view : Handle) : Slot := ⟨.view, view, "foldexpr"⟩

theorem foldMethodOf_ne (view view' : Handle) : foldMethodOf view ≠ foldExprOf view' := fun e =>
  absurd (congrArg Slot.name e) (by decide : "foldmethod" ≠ "foldexpr")

/-- The option of a document that has its indent expression. -/
def indentExprOf (document : Handle) : Slot := ⟨.document, document, "indentexpr"⟩

/-- Folding is left half done in a view: its fold method was written, and its fold expression could
not be read or written. -/
def Torn (ms : List Moment) (view : Handle) : Prop :=
  foldMethodOf view ∈ ms.filterMap Moment.landed? ∧ foldExprOf view ∈ ms.filterMap Moment.missed?

/-! ## What a start comes to -/

/-- What overriding an option comes to, when the options are as given: whether it succeeds, the
answers to its calls, newest first, and the options after it. -/
inductive Overriding (o : Slot) (target : Value) (x : Slot → Value) :
    Bool → List Moment → (Slot → Value) → Prop
  /-- The option cannot be read. -/
  | unread (f : Fault) :
    Overriding o target x false [.answered (.getOption o.scope o.handle o.name) (.error f)] x
  /-- The option has the target value already. -/
  | idle (h : x o = target) :
    Overriding o target x true [.answered (.getOption o.scope o.handle o.name) (.ok (x o))] x
  /-- The option cannot be written. -/
  | refused (h : x o ≠ target) (f : Fault) :
    Overriding o target x false
      [.answered (.setOption o.scope o.handle o.name target) (.error f),
        .answered (.getOption o.scope o.handle o.name) (.ok (x o))] x
  | written (h : x o ≠ target) :
    Overriding o target x true
      [.answered (.setOption o.scope o.handle o.name target) (.ok ()),
        .answered (.getOption o.scope o.handle o.name) (.ok (x o))] (Function.update x o target)

/-- No option is asked for, and no call fails. -/
def Smooth (ms : List Moment) : Prop := ∀ m ∈ ms, m.option? = none ∧ m.failed = false

/-- What a start comes to for one feature: the answers to the calls about it, newest first, and the
options after it. -/
inductive Told (t : Targets) (document : Handle) (x : Slot → Value) :
    Feature → List Moment → (Slot → Value) → Prop
  /-- No option is asked for. -/
  | aside {f : Feature} {ms : List Moment} (h : ∀ m ∈ ms, m.option? = none) : Told t document x f ms x
  | indented {before ms : List Moment} {b : Bool} {y : Slot → Value}
    (smooth : Smooth before)
    (indent : Overriding (indentExprOf document) (.text t.indentExpr) x b ms y) :
    Told t document x .indents (ms ++ before) y
  /-- Overriding the fold method fails. -/
  | unfolded {view : Handle} {before ms : List Moment} {y : Slot → Value}
    (smooth : Smooth before)
    (method : Overriding (foldMethodOf view) (.text t.foldMethod) x false ms y) :
    Told t document x .folds (ms ++ before) y
  | folded {view : Handle} {before ms ms' : List Moment} {b : Bool} {y z : Slot → Value}
    (smooth : Smooth before)
    (method : Overriding (foldMethodOf view) (.text t.foldMethod) x true ms y)
    (expr : Overriding (foldExprOf view) (.text t.foldExpr) y b ms' z) :
    Told t document x .folds (ms' ++ (ms ++ before)) z

namespace Overriding

variable {o : Slot} {target : Value} {x y : Slot → Value} {b : Bool} {ms : List Moment}

/-- Other options stay as they are. -/
theorem of_ne (h : Overriding o target x b ms y) {o' : Slot} (ho : o' ≠ o) : y o' = x o' := by
  cases h with
  | written _ => exact Function.update_of_ne ho _ _
  | _ => rfl

/-- An attempt that fails changes nothing. -/
theorem eq_of_failed (h : Overriding o target x false ms y) : y = x := by
  cases h <;> rfl

theorem eq_target (h : Overriding o target x true ms y) : y o = target := by
  cases h with
  | idle h => exact h
  | written _ => exact Function.update_self _ _ _

theorem any_failed (h : Overriding o target x b ms y) : ms.any Moment.failed = !b := by
  cases h <;> rfl

theorem mem_landed (h : Overriding o target x b ms y) {o' : Slot} :
    o' ∈ ms.filterMap Moment.landed? ↔ o' = o ∧ b = true ∧ x o ≠ target := by
  cases h <;> simp [Moment.landed?, *]

theorem mem_missed (h : Overriding o target x b ms y) {o' : Slot} :
    o' ∈ ms.filterMap Moment.missed? ↔ o' = o ∧ b = false := by
  cases h <;> simp [Moment.missed?, Moment.option?, Moment.failed]

end Overriding

/-! ## Torn views -/

section Aside

variable {ms : List Moment} (h : ∀ m ∈ ms, m.option? = none)

include h

theorem landed_aside : ms.filterMap Moment.landed? = [] :=
  List.filterMap_eq_nil_iff.mpr fun m hm => Moment.landed?_of_option? (h m hm)

theorem missed_aside : ms.filterMap Moment.missed? = [] :=
  List.filterMap_eq_nil_iff.mpr fun m hm => Moment.missed?_of_option? (h m hm)

end Aside

namespace Smooth

variable {ms : List Moment} (h : Smooth ms)

include h

theorem aside : ∀ m ∈ ms, m.option? = none := fun m hm => (h m hm).1

theorem aside_cons {m : Moment} (hm : m.option? = none) : ∀ m' ∈ m :: ms, m'.option? = none :=
  List.forall_mem_cons.mpr ⟨hm, h.aside⟩

theorem any_failed : ms.any Moment.failed = false := by
  simpa using fun m hm => (h m hm).2

end Smooth

namespace Told

variable {t : Targets} {document : Handle} {x y z : Slot → Value} {f : Feature} {view : Handle}
  {before ms ms' : List Moment} {b : Bool}

/-- A view whose fold method cannot be overridden is not torn. -/
theorem not_torn_unfolded (smooth : Smooth before)
    (method : Overriding (foldMethodOf view) (.text t.foldMethod) x false ms y) (view' : Handle) :
    ¬ Torn (ms ++ before) view' := by
  rintro ⟨landed, -⟩
  rw [List.filterMap_append, landed_aside smooth.aside, List.append_nil, method.mem_landed] at landed
  cases landed.2.1

/-- Once the fold method was overridden, its view is torn if it was written and the fold expression
fails. -/
theorem torn_folded_iff (smooth : Smooth before)
    (method : Overriding (foldMethodOf view) (.text t.foldMethod) x true ms y)
    (expr : Overriding (foldExprOf view) (.text t.foldExpr) y b ms' z) {view' : Handle} :
    Torn (ms' ++ (ms ++ before)) view' ↔
      view' = view ∧ x (foldMethodOf view) ≠ .text t.foldMethod ∧ b = false := by
  have apart : ∀ v v', foldMethodOf v ≠ foldExprOf v' := foldMethodOf_ne
  have same : foldMethodOf view' = foldMethodOf view ↔ view' = view :=
    ⟨congrArg Slot.handle, congrArg foldMethodOf⟩
  have same' : foldExprOf view' = foldExprOf view ↔ view' = view :=
    ⟨congrArg Slot.handle, congrArg foldExprOf⟩
  unfold Torn
  simp only [List.filterMap_append, landed_aside smooth.aside, missed_aside smooth.aside,
    List.append_nil, List.mem_append, method.mem_landed, method.mem_missed, expr.mem_landed,
    expr.mem_missed, apart, (apart _ _).symm, same, same', false_and, false_or, or_false, true_and]
  constructor
  · rintro ⟨⟨hview, hne⟩, -, hb⟩
    exact ⟨hview, hne, hb⟩
  · rintro ⟨hview, hne, hb⟩
    exact ⟨⟨hview, hne⟩, hview, hb⟩

/-- A feature that fails changes none of its options, unless a view is torn. -/
theorem unchanged_iff (h : Told t document x f ms y) (hfailed : ms.any Moment.failed = true) :
    (∀ o, o.feature? = some f → y o = x o) ↔ ¬ (f = .folds ∧ ∃ view, Torn ms view) := by
  cases h with
  | aside h =>
    refine iff_of_true (fun _ _ => rfl) ?_
    rintro ⟨-, view, landed, -⟩
    rw [landed_aside h] at landed
    cases landed
  | @indented before ms b y smooth indent =>
    rw [List.any_append, smooth.any_failed, Bool.or_false, indent.any_failed] at hfailed
    obtain rfl : b = false := by simpa using hfailed
    exact iff_of_true (fun _ _ => by rw [indent.eq_of_failed]) fun e => nomatch e.1
  | unfolded smooth method =>
    refine iff_of_true (fun _ _ => by rw [method.eq_of_failed]) ?_
    rintro ⟨-, view, torn⟩
    exact not_torn_unfolded smooth method view torn
  | @folded view before ms ms' b y z smooth method expr =>
    rw [List.any_append, List.any_append, smooth.any_failed, method.any_failed,
      expr.any_failed] at hfailed
    obtain rfl : b = false := by simpa using hfailed
    obtain rfl := expr.eq_of_failed
    simp only [torn_folded_iff smooth method expr, and_true, true_and, exists_eq_left]
    rw [not_not]
    constructor
    · intro hsame
      exact (hsame (foldMethodOf view) rfl).symm.trans method.eq_target
    · intro htarget o _
      by_cases ho : o = foldMethodOf view
      · rw [ho, method.eq_target, htarget]
      · exact method.of_ne ho

/-- The two options of a view get their targets or stay as they are, unless the view is torn and the
fold expression did not have its target. -/
theorem view_iff (h : Told t document x .folds ms z) (view : Handle) :
    ((z (foldMethodOf view) = .text t.foldMethod ∧ z (foldExprOf view) = .text t.foldExpr) ∨
      (z (foldMethodOf view) = x (foldMethodOf view) ∧
        z (foldExprOf view) = x (foldExprOf view))) ↔
      ¬ (Torn ms view ∧ x (foldExprOf view) ≠ .text t.foldExpr) := by
  cases h with
  | aside h =>
    refine iff_of_true (.inr ⟨rfl, rfl⟩) ?_
    rintro ⟨⟨landed, -⟩, -⟩
    rw [landed_aside h] at landed
    cases landed
  | unfolded smooth method =>
    refine iff_of_true (.inr ?_) fun h => not_torn_unfolded smooth method view h.1
    rw [method.eq_of_failed]
    exact ⟨rfl, rfl⟩
  | @folded view' before ms ms' b y _ smooth method expr =>
    have apart : ∀ v v', foldMethodOf v ≠ foldExprOf v' := foldMethodOf_ne
    rw [torn_folded_iff smooth method expr]
    by_cases hview : view = view'
    · subst hview
      have hmethod : z (foldMethodOf view) = .text t.foldMethod :=
        (expr.of_ne (apart _ _)).trans method.eq_target
      cases b with
      | true => exact iff_of_true (.inl ⟨hmethod, expr.eq_target⟩) (by simp)
      | false =>
        have hexpr : z (foldExprOf view) = x (foldExprOf view) :=
          (congrFun expr.eq_of_failed _).trans (method.of_ne (apart _ _).symm)
        rw [hmethod, hexpr]
        simp only [true_and, and_true, ne_eq, not_and_or, not_not]
        rw [or_comm, eq_comm (a := Value.text t.foldMethod)]
    · refine iff_of_true (.inr ⟨?_, ?_⟩) fun h => hview h.1.1
      · exact (expr.of_ne (apart _ _)).trans (method.of_ne fun e => hview (congrArg Slot.handle e))
      · exact (expr.of_ne fun e => hview (congrArg Slot.handle e)).trans
          (method.of_ne (apart _ _).symm)

end Told

variable {σ : Type} {s : Surroundings σ} {value : σ → Slot → Value}

/-- The answers to the calls about a feature on the way from one world to a later one, newest
first. -/
def answers (s : Surroundings σ) (f : Feature) (w v : World σ) : List Moment :=
  (extend s [] w v).filter fun m => m.feature? = some f

/-- On the way from a world, the answers about a feature and its options are as given. -/
structure Own (s : Surroundings σ) (value : σ → Slot → Value) (w : World σ) (f : Feature)
    (ms : List Moment) (x : Slot → Value) (v : World σ) : Prop where
  follows : Follows s w v
  tidy : v.state.features.Tidy
  targets : v.state.features.targets = w.state.features.targets
  answers : answers s f w v = ms
  values : ∀ o, o.feature? = some f → value v.outside o = x o

namespace Own

variable {w v : World σ} {f g : Feature} {ms : List Moment} {x : Slot → Value}

theorem refl (hw : w.state.features.Tidy) : Own s value w f [] (value w.outside) w :=
  ⟨.refl w, hw, rfl, by rw [TreeFeatures.answers, extend_self, List.filter_nil], fun _ _ => rfl⟩

theorem log (h : Own s value w f ms x v) (l : List LogEntry) :
    Own s value w f ms x { v with log := l } :=
  ⟨⟨h.follows.trace, h.follows.outside⟩, h.tidy, h.targets, h.answers, h.values⟩

theorem change (h : Own s value w f ms x v) {fs : Features} (hfs : v.state.features.Proceeds fs) :
    Own s value w f ms x (v.onFeatures fun _ => fs) :=
  ⟨⟨h.follows.trace, h.follows.outside⟩, hfs.tidy h.tidy, hfs.targets.trans h.targets, h.answers,
    h.values⟩

/-- A call is one more answer if it is about the feature. -/
theorem answers_ask (h : Own s value w f ms x v) (c : Call) :
    TreeFeatures.answers s f w (afterCall s c v) =
      if c.feature? = some f then .answered c (s.reply c v.outside).1 :: ms else ms := by
  have same : decide (Moment.feature? (.answered c (s.reply c v.outside).1) = some f) = true ↔
      c.feature? = some f := decide_eq_true_iff
  rw [TreeFeatures.answers, (h.follows.ask c (h := [])).2, List.filter_cons, ← h.answers]
  simp only [same]
  rfl

/-- A call about another feature. -/
theorem ask_other (hs : Fragile s value) (h : Own s value w f ms x v) {c : Call}
    (hc : c.feature? ≠ some f) : Own s value w f ms x (afterCall s c v) where
  follows := (h.follows.ask c (h := [])).1
  tidy := h.tidy
  targets := h.targets
  answers := by rw [h.answers_ask c, if_neg hc]
  values o ho :=
    (hs.framed _ _ _ fun e => hc ((Call.feature?_of_written? e).trans ho)).trans (h.values o ho)

/-- A call about the feature that changes no option. -/
theorem ask (h : Own s value w f ms x v) {c : Call} (hc : c.feature? = some f)
    (hkeep : value (s.reply c v.outside).2 = value v.outside) :
    Own s value w f (.answered c (s.reply c v.outside).1 :: ms) x (afterCall s c v) where
  follows := (h.follows.ask c (h := [])).1
  tidy := h.tidy
  targets := h.targets
  answers := by rw [h.answers_ask c, if_pos hc]
  values o ho := (congrFun hkeep o).trans (h.values o ho)

/-- An option of the feature is written. -/
theorem write (hs : Fragile s value) (h : Own s value w f ms x v) {o : Slot}
    (ho : o.feature? = some f) {a : Value}
    (hok : (s.reply (.setOption o.scope o.handle o.name a) v.outside).1 = .ok ()) :
    Own s value w f (.answered (.setOption o.scope o.handle o.name a) (.ok ()) :: ms)
      (Function.update x o a) (afterCall s (.setOption o.scope o.handle o.name a) v) where
  follows := (h.follows.ask _ (h := [])).1
  tidy := h.tidy
  targets := h.targets
  answers := by
    rw [h.answers_ask, hok]
    exact if_pos ho
  values o' ho' := by
    show value (s.reply _ v.outside).2 o' = _
    rw [hs.accept o a v.outside hok]
    by_cases e : o' = o
    · rw [e, Function.update_self, Function.update_self]
    · rw [Function.update_of_ne e, Function.update_of_ne e, h.values o' ho']

/-- Another feature changes neither the answers nor the options. -/
theorem ignores (hs : Fragile s value) (hg : g ≠ f) (document : Handle) :
    Features.Ignores s g document (Own s value w f ms x) where
  log _ l h := h.log l
  tidy _ h := h.tidy
  ask _ hc _ h := h.ask_other hs fun e => hg (Option.some.inj (hc.symm.trans e))
  file _ _ ho _ _ _ h hr := h.change (.override _ document ho hr)

end Own

namespace Features

variable {E : World σ → Prop} {document : Handle} {w : World σ} {f : Feature} {ms : List Moment}
  {x : Slot → Value}

/-- An option of a feature was overridden, after answers and with options as given: the answers and
the options now are as this makes them. -/
def Overrode (s : Surroundings σ) (value : σ → Slot → Value) (w : World σ) (f : Feature)
    (ms : List Moment) (x : Slot → Value) (o : Slot) (target : Value) (b : Bool) (v : World σ) :
    Prop :=
  ∃ ms' y, Overriding o target x b ms' y ∧ Own s value w f (ms' ++ ms) y v

/-- The option was read, and has another value than the target. -/
theorem leads_write_overriding (hs : Fragile s value) {o : Slot} (hf : o.feature? = some f)
    {target : Value} (hne : x o ≠ target) :
    Leads (Own s value w f (.answered (.getOption o.scope o.handle o.name) (.ok (x o)) :: ms) x)
      (attempt (ask s (.setOption o.scope o.handle o.name target)))
      (fun a => Overrode s value w f ms x o target a.isOk) E := by
  refine leads_attempt_ask fun v hv => ?_
  cases ha : (s.reply (.setOption o.scope o.handle o.name target) v.outside).1 with
  | error fault =>
    have asked := hv.ask (c := .setOption o.scope o.handle o.name target) hf
      (hs.refuse o _ _ fault ha)
    rw [ha] at asked
    exact ⟨_, x, .refused hne fault, asked⟩
  | ok _ => exact ⟨_, _, .written hne, hv.write hs hf ha⟩

/-- A record reads its option, and writes the target if that is another value. -/
theorem leads_apply_overriding (hs : Fragile s value) {r : Override} {o : Slot} {target : String}
    (hname : r.name = o.name) (hscope : r.scope = o.scope) (htarget : r.target = .text target)
    (hf : o.feature? = some f) :
    Leads (Own s value w f ms x) (r.apply s o.handle)
      (fun a => Overrode s value w f ms x o (.text target) a.2.isOk) E := by
  unfold Override.apply
  rw [hname, hscope, htarget]
  refine Leads.bind (Q := fun a v => (∀ current, a = .ok current → x o = current) ∧
    Own s value w f (.answered (.getOption o.scope o.handle o.name) a :: ms) x v)
    (leads_attempt_ask fun v hv => ⟨fun current hcurrent => ?_, hv.ask hf (hs.other _ _ rfl)⟩)
    fun a => ?_
  · exact (hv.values o hf).symm.trans (hs.read o current v.outside hcurrent)
  rcases a with fault | current
  · exact leads_pure fun v hv => ⟨_, x, .unread fault, hv.2⟩
  rintro v ⟨hcurrent, hv⟩
  obtain rfl := hcurrent current rfl
  revert v
  show Leads (Own s value w f (.answered (.getOption o.scope o.handle o.name) (.ok (x o)) :: ms) x)
    (if (x o).same (.text target) then _ else _) _ _
  split
  · next hsame => exact leads_pure fun v hv => ⟨_, x, .idle (Value.same_text_right.mp hsame), hv⟩
  · next hdiffers =>
    have hne : x o ≠ .text target := fun e => hdiffers (Value.same_text_right.mpr e)
    refine (leads_write_overriding hs hf hne).bind fun a => leads_pure fun v hv => ?_
    cases a <;> exact hv

/-- Overriding an option of a feature. -/
theorem leads_overriding (hs : Fragile s value) {o : Slot} (ho : o.scope = scopeOf o.name)
    (hf : o.feature? = some f) (target : String) :
    Leads (Own s value w f ms x) (override s document o.name o.scope target o.handle)
      (fun _ => Overrode s value w f ms x o (.text target) true)
      (Overrode s value w f ms x o (.text target) false) := by
  refine leads_override_by (fun u hu => ?_) (fun b v r hv hr => ?_) fun v l hv => ?_
  · have about := about_record (hu.tidy document) ho target
    exact (leads_apply_overriding hs about.name about.scope
      (OverrideTable.target_record _ _ _ _ _) hf).mono (fun _ hv => hv ▸ hu) (fun _ _ => id)
      fun _ => id
  · obtain ⟨ms', y, overriding, hv⟩ := hv
    exact ⟨ms', y, overriding, hv.change (.override _ document ho hr)⟩
  · obtain ⟨ms', y, overriding, hv⟩ := hv
    exact ⟨ms', y, overriding, hv.log l⟩

/-! ## A start -/

/-- On the way from a world, the answers about a feature and its options are as a start makes
them. -/
def Known (s : Surroundings σ) (value : σ → Slot → Value) (document : Handle) (w : World σ)
    (f : Feature) (v : World σ) : Prop :=
  ∃ ms y, Told w.state.features.targets document (value w.outside) f ms y ∧
    Own s value w f ms y v

theorem Known.log {v : World σ} (h : Known s value document w f v) (l : List LogEntry) :
    Known s value document w f { v with log := l } := by
  obtain ⟨ms, y, told, hv⟩ := h
  exact ⟨ms, y, told, hv.log l⟩

theorem Known.ignores (hs : Fragile s value) {g : Feature} (hg : g ≠ f) :
    Ignores s g document (Known s value document w f) where
  log _ l h := h.log l
  tidy _ := fun ⟨_, _, _, h⟩ => h.tidy
  ask c hc v := fun ⟨ms, y, told, h⟩ => ⟨ms, y, told, (Own.ignores hs hg document).ask c hc v h⟩
  file o target ho hf v r := fun ⟨ms, y, told, h⟩ hr =>
    ⟨ms, y, told, (Own.ignores hs hg document).file o target ho hf v r h hr⟩

/-- Folding asks for the view, and overrides its fold method before its fold expression. -/
theorem leads_showFolds_known (hs : Fragile s value) {before : List Moment} (smooth : Smooth before)
    (language : String) :
    Leads (Own s value w .folds before (value w.outside)) (showFolds s document language)
      (fun _ => Known s value document w .folds) E := by
  refine Leads.shielded (leads_state_eq.bind fun st => ?_) fun v l hv => hv.log l
  rintro u ⟨rfl, hu⟩
  refine Leads.bind (Q := fun view => Own s value w .folds
    (.answered (.viewOf document) (.ok view) :: before) (value w.outside))
    (leads_ask ?_ ?_) (fun view => ?_) u hu
  · intro v view hv hview
    have asked := hv.ask (c := .viewOf document) rfl (hs.other _ _ rfl)
    rwa [hview] at asked
  · exact fun v _ hv _ => ⟨_, _, .aside (smooth.aside_cons rfl), hv.ask rfl (hs.other _ _ rfl)⟩
  have smooth' : Smooth (.answered (.viewOf document) (.ok view) :: before) :=
    List.forall_mem_cons.mpr ⟨⟨rfl, rfl⟩, smooth⟩
  rw [hu.targets]
  refine Leads.bind ((leads_overriding (o := foldMethodOf view) hs rfl rfl _).mono
    (fun _ => id) (fun _ _ => id) ?_) fun _ => ?_
  · rintro v ⟨ms, y, method, hv⟩
    exact ⟨_, y, .unfolded smooth' method, hv⟩
  · rintro v ⟨ms, y, method, hv⟩
    refine ((leads_overriding (o := foldExprOf view) hs rfl rfl _).mono (fun _ => id) ?_ ?_) v hv
    · rintro _ v' ⟨ms', z, expr, hv'⟩
      exact ⟨_, z, .folded smooth' method expr, hv'⟩
    · rintro v' ⟨ms', z, expr, hv'⟩
      exact ⟨_, z, .folded smooth' method expr, hv'⟩

/-- Showing a feature after calls that have not failed. -/
theorem leads_display_known (hs : Fragile s value) {before : List Moment} (smooth : Smooth before)
    (language : String) :
    Leads (Own s value w f before (value w.outside)) (display s document language f)
      (fun _ => Known s value document w f) E := by
  cases f with
  | highlights =>
    have asked : ∀ v, Own s value w .highlights before (value w.outside) v →
        Known s value document w .highlights (afterCall s (.startHighlighting document language) v) :=
      fun v hv => ⟨_, _, .aside (smooth.aside_cons rfl), hv.ask rfl (hs.other _ _ rfl)⟩
    exact Leads.shielded (leads_ask (fun v _ hv _ => asked v hv) fun v _ hv _ => asked v hv)
      fun v l hv => hv.log l
  | folds => exact leads_showFolds_known hs smooth language
  | indents =>
    refine Leads.shielded (leads_state_eq.bind fun st => ?_) fun v l hv => hv.log l
    rintro u ⟨rfl, hu⟩
    rw [hu.targets]
    refine ((leads_overriding (o := indentExprOf document) hs rfl rfl _).mono
      (fun _ => id) ?_ ?_) u hu
    · rintro _ v ⟨ms, y, indent, hv⟩
      exact ⟨_, y, .indented smooth indent, hv⟩
    · rintro v ⟨ms, y, indent, hv⟩
      exact ⟨_, y, .indented smooth indent, hv⟩

theorem leads_part_known (hs : Fragile s value) (language : String) (flags : Flags) :
    Leads (Own s value w f [] (value w.outside)) (part s document language flags f)
      (fun _ => Known s value document w f) E := by
  refine leads_part (Q := fun b v => ∃ q : Moment, q.option? = none ∧ (b = true → q.failed = false) ∧
    Own s value w f [q] (value w.outside) v) (fun _ v hv => ?_) (fun _ v hv => ?_) ?_ ?_ ?_
  · exact ⟨[], _, .aside (by simp), hv⟩
  · have asked := hv.ask (c := .query language f.query) (Feature.ofQuery?_query f)
      (hs.other _ _ rfl)
    refine ⟨_, rfl, fun h => ?_, asked⟩
    cases ha : (s.reply (.query language f.query) v.outside).1 with
    | error fault =>
      rw [ha] at h
      cases h
    | ok _ => rfl
  · rintro b v l ⟨q, hq, hqf, hv⟩
    exact ⟨q, hq, hqf, hv.log l⟩
  · rintro v ⟨q, hq, -, hv⟩
    exact ⟨[q], _, .aside (by simpa using hq), hv⟩
  · rintro v ⟨q, hq, hqf, hv⟩
    exact leads_display_known hs (by simpa [Smooth] using ⟨hq, hqf rfl⟩) language v hv

/-- What a start makes of each feature. -/
theorem leads_start_known (hs : Fragile s value) (hw : w.state.features.Tidy) (f : Feature)
    (language : String) (flags : Flags) :
    Leads (fun v => v = w) (start s document language flags)
      (fun _ => Known s value document w f) E := by
  have before (g : Feature) (hg : g ≠ f) :
      Leads (Own s value w f [] (value w.outside)) (part s document language flags g)
        (fun _ => Own s value w f [] (value w.outside)) E :=
    leads_part_ignored (Own.ignores hs hg document) language flags
  have after (g : Feature) (hg : g ≠ f) :
      Leads (Known s value document w f) (part s document language flags g)
        (fun _ => Known s value document w f) E :=
    leads_part_ignored (Known.ignores hs hg) language flags
  have known : Leads (Own s value w f [] (value w.outside)) (part s document language flags f)
      (fun _ => Known s value document w f) E := leads_part_known hs language flags
  have noted : Leads (Known s value document w f) (noteStarted document language)
      (fun _ => Known s value document w f) E := leads_note fun _ hv => hv.log _
  refine Leads.bind (Q := fun _ => Own s value w f [] (value w.outside)) (leads_update ?_)
    fun _ => ?_
  · rintro v rfl
    exact (Own.refl hw).change (.activate _ document)
  cases f with
  | highlights =>
    exact known.bind fun _ => (after .folds nofun).bind fun _ =>
      (after .indents nofun).bind fun _ => noted
  | folds =>
    exact (before .highlights nofun).bind fun _ => known.bind fun _ =>
      (after .indents nofun).bind fun _ => noted
  | indents =>
    exact (before .highlights nofun).bind fun _ => (before .folds nofun).bind fun _ =>
      known.bind fun _ => noted

/-! ## The result -/

/-- Only the answers about folding say which views are torn. -/
theorem torn_answers_iff (s : Surroundings σ) (w v : World σ) {view : Handle} :
    Torn (answers s .folds w v) view ↔ Torn (extend s [] w v) view := by
  unfold Torn answers
  simp only [List.mem_filterMap, List.mem_filter, decide_eq_true_eq, and_assoc]
  refine and_congr (exists_congr fun m => and_congr_right fun _ => ?_)
    (exists_congr fun m => and_congr_right fun _ => ?_)
  · exact and_iff_right_of_imp Moment.feature?_of_landed?
  · refine and_iff_right_of_imp fun h => Moment.feature?_of_option? (o := foldExprOf view) ?_
    unfold Moment.missed? at h
    split at h
    · exact h
    · cases h

/-- **A feature that fails is skipped whole, unless a view is torn.** Any call of a start may fail;
options behave as a store otherwise, and the records stand where they belong, as starts and stops
leave them. If a call for a feature fails, the options of the feature have the values from before
the start, except when the feature is folding, the fold method of a view was written, and the fold
expression of that view then could not be read or written. The two options of a view both end with
their targets or both stay as they were, except when this happens and the fold expression did not
have its target before. -/
theorem skipped_whole_iff (hs : Fragile s value) {w : World σ} (hw : w.state.features.Tidy)
    (document : Handle) (language : String) (flags : Flags) :
    let v := play s (.start document language flags) w
    let ms := extend s [] w v
    let t := w.state.features.targets
    (∀ f, (∃ m ∈ ms, m.feature? = some f ∧ m.failed = true) →
      ((∀ o, o.feature? = some f → value v.outside o = value w.outside o) ↔
        ¬ (f = .folds ∧ ∃ view, Torn ms view))) ∧
    ∀ view,
      ((value v.outside (foldMethodOf view) = .text t.foldMethod ∧
          value v.outside (foldExprOf view) = .text t.foldExpr) ∨
        (value v.outside (foldMethodOf view) = value w.outside (foldMethodOf view) ∧
          value v.outside (foldExprOf view) = value w.outside (foldExprOf view))) ↔
        ¬ (Torn ms view ∧ value w.outside (foldExprOf view) ≠ .text t.foldExpr) := by
  intro v ms t
  have known : ∀ f, Known s value document w f v := fun f =>
    (leads_start_known hs hw f language flags).run rfl
  constructor
  · rintro f ⟨m, hm, hmf, hfailed⟩
    obtain ⟨ms', y, told, own⟩ := known f
    have failed : ms'.any Moment.failed = true := by
      rw [← own.answers]
      exact List.any_eq_true.mpr ⟨m, List.mem_filter.mpr ⟨hm, decide_eq_true hmf⟩, hfailed⟩
    have torn : (f = .folds ∧ ∃ view, Torn ms' view) ↔ f = .folds ∧ ∃ view, Torn ms view := by
      refine and_congr_right fun e => exists_congr fun view => ?_
      rw [← own.answers, e]
      exact torn_answers_iff s w v
    rw [← torn, ← told.unchanged_iff failed]
    exact forall_congr' fun o => imp_congr_right fun ho => by rw [own.values o ho]
  · intro view
    obtain ⟨ms', y, told, own⟩ := known .folds
    rw [own.values (foldMethodOf view) rfl, own.values (foldExprOf view) rfl, told.view_iff view,
      ← own.answers, torn_answers_iff]

/-- Surroundings in which options of a name cannot be read. -/
def unreadable (name : String) (s : Surroundings σ) : Surroundings σ where
  reply
    | .getOption scope handle n, x =>
      if n = name then (.error (.external "unreadable"), x) else s.reply (.getOption scope handle n) x
    | c, x => s.reply c x
  machine := s.machine

theorem unreadable_fragile (name : String) (hs : Store s value) :
    Fragile (unreadable name s) value where
  read o v x h := by
    by_cases hn : o.name = name
    · simp [unreadable, hn] at h
    · simp only [unreadable, if_neg hn, hs.read, Except.ok.injEq] at h
      exact h
  accept o v x _ := hs.write o v x
  refuse o v x f h := by
    simp only [unreadable, hs.accept] at h
    cases h
  other c x h := by
    cases c with
    | getOption scope handle n =>
      by_cases hn : n = name
      · simp [unreadable, hn]
      · simp only [unreadable, if_neg hn]
        exact hs.other _ x rfl
    | setOption => cases h
    | _ => exact hs.other _ x rfl

/-- A document of the plain editor is folded, where options of a name cannot be read. -/
def foldUnread (name : String) : World (Slot → Value) :=
  play (unreadable name plainEditor) (.start (.number 1) "lua" ⟨false, false, true, false⟩) plainWorld

/-- The fold method cannot be read: no option of folding changes. -/
theorem skipped_whole_iff_unread :
    Fragile (unreadable "foldmethod" plainEditor) id ∧ plainWorld.state.features.Tidy ∧
      ∀ o : Slot, o.feature? = some .folds →
        (foldUnread "foldmethod").outside o = plainWorld.outside o := by
  have fragile : Fragile (unreadable "foldmethod" plainEditor) id :=
    unreadable_fragile _ plainEditor_store
  have tidy : plainWorld.state.features.Tidy := tidy_of_empty rfl
  have told : extend (unreadable "foldmethod" plainEditor) [] plainWorld (foldUnread "foldmethod") =
      [.answered (.getOption .view (.number 10) "foldmethod") (.error (.external "unreadable")),
        .answered (.viewOf (.number 1)) (.ok (.number 10)),
        .answered (.query "lua" "folds") (.ok (.text "folds"))] := by
    with_unfolding_all rfl
  obtain ⟨hskipped, -⟩ :=
    skipped_whole_iff fragile tidy (.number 1) "lua" ⟨false, false, true, false⟩
  refine ⟨fragile, tidy, (hskipped .folds ?_).mpr ?_⟩
  · exact ⟨_, told ▸ List.mem_cons_self, rfl, rfl⟩
  · rintro ⟨-, view, landed, -⟩
    have none : foldMethodOf view ∈ ([] : List Slot) := by
      rw [show play _ _ plainWorld = foldUnread "foldmethod" from rfl, told] at landed
      exact landed
    cases none

/-- The fold expression cannot be read: the fold method stays written, and the fold expression does
not change. -/
theorem fold_torn :
    Fragile (unreadable "foldexpr" plainEditor) id ∧ plainWorld.state.features.Tidy ∧
      (∃ m ∈ extend (unreadable "foldexpr" plainEditor) [] plainWorld (foldUnread "foldexpr"),
        m.feature? = some .folds ∧ m.failed = true) ∧
      (foldUnread "foldexpr").outside (foldMethodOf (.number 10)) = .text "expr" ∧
      plainWorld.outside (foldMethodOf (.number 10)) = .text "user" ∧
      (foldUnread "foldexpr").outside (foldExprOf (.number 10)) = .text "user" := by
  have told : extend (unreadable "foldexpr" plainEditor) [] plainWorld (foldUnread "foldexpr") =
      [.answered (.getOption .view (.number 10) "foldexpr") (.error (.external "unreadable")),
        .answered (.setOption .view (.number 10) "foldmethod" (.text "expr")) (.ok ()),
        .answered (.getOption .view (.number 10) "foldmethod") (.ok (.text "user")),
        .answered (.viewOf (.number 1)) (.ok (.number 10)),
        .answered (.query "lua" "folds") (.ok (.text "folds"))] := by
    with_unfolding_all rfl
  refine ⟨unreadable_fragile _ plainEditor_store, tidy_of_empty rfl, ?_, ?_, rfl, ?_⟩
  · exact ⟨_, told ▸ List.mem_cons_self, rfl, rfl⟩
  · with_unfolding_all rfl
  · with_unfolding_all rfl

end Features

end TreeFeatures
