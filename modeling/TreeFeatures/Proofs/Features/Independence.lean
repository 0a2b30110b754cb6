import TreeFeatures.Proofs.Features.Parts
import TreeFeatures.Proofs.Features.Toggle

/-!
# Features do not depend on each other

A document is started in two surroundings that look the same but for the calls about one feature,
which may answer in different ways or fail. The other features are the same after both starts.

* `Besides`: surroundings that differ by the calls about one feature. `Beside`: worlds that differ
  by what belongs to one feature.
* `together_part`: another feature is shown together in both. `beside_part`: the feature itself is
  shown by each in its own way, and nothing else differs afterwards.
* **`features_independent`**: the two starts have the same effect on the other features, and neither
  fails; a later stop puts back every option whose own write is not refused.
-/

namespace TreeFeatures

open Act

namespace OverrideTable

/-- Whether the record under a key is about an option of another feature. -/
def foreign (f : Feature) (k : String × Handle) : Bool := decide (Feature.ofOption? k.1 ≠ some f)

/-- The records of the options of other features, in order. -/
def without (t : OverrideTable) (f : Feature) : OverrideTable := t.filter fun e => foreign f e.1

variable {t : OverrideTable} {f : Feature} {o : Slot}

theorem without_put_self (r : Override) (h : o.feature? = some f) :
    without (Assoc.put t (o.name, o.handle) r) f = without t f := by
  refine Assoc.filter_put_of_not t r (decide_eq_false fun hne => hne h)

theorem without_put_of_ne (r : Override) (h : o.feature? ≠ some f) :
    without (Assoc.put t (o.name, o.handle) r) f = Assoc.put (without t f) (o.name, o.handle) r :=
  Assoc.filter_put t r (decide_eq_true h)

/-- The record of an option does not depend on the records of another feature. -/
theorem record_without (target : Value) (h : o.feature? ≠ some f) :
    (without t f).record o.name o.scope target o.handle =
      t.record o.name o.scope target o.handle := by
  have same : Assoc.get? (without t f) (o.name, o.handle) = Assoc.get? t (o.name, o.handle) :=
    Assoc.get?_filter t (decide_eq_true h)
  unfold record
  rw [same]

end OverrideTable

variable {σ τ : Type} {s : Surroundings σ} {s' : Surroundings τ} {f g : Feature}
  {R : σ → τ → Prop} {value : σ → Slot → Value} {value' : τ → Slot → Value}
  {lit : σ → Handle → Option String} {lit' : τ → Handle → Option String}

/-- Two surroundings that differ by the calls about one feature. In states that `R` relates, the
calls about other features have the same answers, and the options of other features have the same
values; so has highlighting unless it is the feature. The calls about the feature may answer in each
of them as they like, but nothing that belongs to another feature depends on them. -/
structure Besides (s : Surroundings σ) (s' : Surroundings τ) (f : Feature) (R : σ → τ → Prop)
    (value : σ → Slot → Value) (value' : τ → Slot → Value) (lit : σ → Handle → Option String)
    (lit' : τ → Handle → Option String) : Prop where
  others : ∀ (c : Call) g, c.feature? = some g → g ≠ f → ∀ x y, R x y →
    (s.reply c x).1 = (s'.reply c y).1 ∧ R (s.reply c x).2 (s'.reply c y).2
  left : ∀ c : Call, c.feature? = some f → ∀ x y, R x y → R (s.reply c x).2 y
  right : ∀ c : Call, c.feature? = some f → ∀ x y, R x y → R x (s'.reply c y).2
  options : ∀ x y, R x y → ∀ o : Slot, o.feature? ≠ some f → value x o = value' y o
  highlighting : f ≠ .highlights → ∀ x y, R x y → lit x = lit' y

theorem Besides.symm (h : Besides s s' f R value value' lit lit') :
    Besides s' s f (flip R) value' value lit' lit where
  others c g hg hne y x hxy := ⟨(h.others c g hg hne x y hxy).1.symm, (h.others c g hg hne x y hxy).2⟩
  left c hc y x hxy := h.right c hc x y hxy
  right c hc y x hxy := h.left c hc x y hxy
  options y x hxy o ho := (h.options x y hxy o ho).symm
  highlighting hf y x hxy := (h.highlighting hf x y hxy).symm

/-- Two worlds in which a document shows features, and which differ by what belongs to one
feature. -/
structure Beside (f : Feature) (R : σ → τ → Prop) (document : Handle) (w : World σ) (v : World τ) :
    Prop where
  outside : R w.outside v.outside
  tidy : w.state.features.Tidy ∧ v.state.features.Tidy
  shown : w.state.features.isActive document = true
  targets : w.state.features.targets = v.state.features.targets
  active : ∀ d, w.state.features.isActive d = v.state.features.isActive d
  records : ∀ d, (w.state.features.overrides d).without f = (v.state.features.overrides d).without f

namespace Beside

variable {document : Handle} {w : World σ} {v : World τ}

theorem symm (h : Beside f R document w v) : Beside f (flip R) document v w where
  outside := h.outside
  tidy := h.tidy.symm
  shown := (h.active document).symm.trans h.shown
  targets := h.targets.symm
  active d := (h.active d).symm
  records d := (h.records d).symm

theorem log (h : Beside f R document w v) (k l : List LogEntry) :
    Beside f R document { w with log := k } { v with log := l } :=
  ⟨h.outside, h.tidy, h.shown, h.targets, h.active, h.records⟩

/-- Filing records of an active document leaves the same documents active. -/
theorem isActive_refiled {fs : Features} (h : fs.isActive document = true) (d : Handle)
    (t : OverrideTable) : (fs.setOverrides document t).isActive d = fs.isActive d := by
  rw [Features.isActive_setOverrides]
  by_cases hd : document = d
  · simp [← hd, h]
  · simp [hd]

/-- The state of the surroundings changes. -/
theorem surroundings (h : Beside f R document w v) {w' : World σ} {v' : World τ}
    (hw : w'.state = w.state) (hv : v'.state = v.state) (hR : R w'.outside v'.outside) :
    Beside f R document w' v' := by
  refine ⟨hR, ?_, ?_, ?_, ?_, ?_⟩
  all_goals rw [hw]
  · rw [hv]; exact h.tidy
  · exact h.shown
  · rw [hv]; exact h.targets
  · rw [hv]; exact h.active
  · rw [hv]; exact h.records

/-- Records of the document are filed on both sides. -/
theorem file (h : Beside f R document w v) {t t' : OverrideTable} (ht : t.Proper) (ht' : t'.Proper)
    (hsame : t.without f = t'.without f) :
    Beside f R document (w.onFeatures fun f => f.setOverrides document t)
      (v.onFeatures fun f => f.setOverrides document t') where
  outside := h.outside
  tidy := ⟨h.tidy.1.setOverrides document ht, h.tidy.2.setOverrides document ht'⟩
  shown := (isActive_refiled h.shown document t).trans h.shown
  targets := h.targets
  active d := (isActive_refiled h.shown d t).trans <|
    (h.active d).trans (isActive_refiled ((h.active document).symm.trans h.shown) d t').symm
  records d := by
    show ((w.state.features.setOverrides document t).overrides d).without f =
      ((v.state.features.setOverrides document t').overrides d).without f
    by_cases hd : document = d
    · rw [← hd, Features.overrides_setOverrides_self, Features.overrides_setOverrides_self, hsame]
    · rw [Features.overrides_setOverrides_of_ne _ _ hd, Features.overrides_setOverrides_of_ne _ _ hd,
        h.records d]

/-- Records of the feature are filed on one side. -/
theorem file_left (h : Beside f R document w v) {t : OverrideTable} (ht : t.Proper)
    (hsame : t.without f = (w.state.features.overrides document).without f) :
    Beside f R document (w.onFeatures fun f => f.setOverrides document t) v where
  outside := h.outside
  tidy := ⟨h.tidy.1.setOverrides document ht, h.tidy.2⟩
  shown := (isActive_refiled h.shown document t).trans h.shown
  targets := h.targets
  active d := (isActive_refiled h.shown d t).trans (h.active d)
  records d := by
    show ((w.state.features.setOverrides document t).overrides d).without f = _
    by_cases hd : document = d
    · rw [← hd, Features.overrides_setOverrides_self, hsame, h.records document]
    · rw [Features.overrides_setOverrides_of_ne _ _ hd, h.records d]

end Beside

namespace Features

/-- The states are those of two given worlds, and their surroundings are related. -/
structure Aligned (R : σ → τ → Prop) (w : World σ) (v : World τ) (w' : World σ) (v' : World τ) :
    Prop where
  left : w'.state = w.state
  right : v'.state = v.state
  outside : R w'.outside v'.outside

/-- After a record wrote its target: the record is as it was, or keeps a value that was found. -/
structure Applied (R : σ → τ → Prop) (r : Override) (handle : Handle) (w : World σ) (v : World τ)
    (x : Except Fault (Override × Except Fault Bool)) (w' : World σ) (v' : World τ) : Prop where
  aligned : Aligned R w v w' v'
  record : ∀ y, x = .ok y → y.1 = r ∨ ∃ current, y.1 = r.capture handle current

variable {document : Handle} (h : Besides s s' f R value value' lit lit')

include h

/-! ## Another feature -/

theorem together_asked {c : Call} (hc : c.feature? = some g) (hg : g ≠ f) :
    Together (Beside f R document) (ask s c) (ask s' c) fun _ => Beside f R document :=
  together_ask fun w v hwv =>
    have asked := h.others c g hc hg w.outside v.outside hwv.outside
    ⟨asked.1, hwv.surroundings rfl rfl asked.2⟩

theorem together_hasQuery (hg : g ≠ f) (language : String) :
    Together (Beside f R document) (hasQuery s language g.query) (hasQuery s' language g.query)
      fun _ => Beside f R document := by
  have asked : Together (Beside f R document) (ask s (.query language g.query))
      (ask s' (.query language g.query)) fun _ => Beside f R document :=
    together_asked h (Feature.ofQuery?_query g) hg
  refine (asked.attempt (R := fun _ => Beside f R document) fun _ _ _ => id).bind (fun r => ?_)
    fun _ _ _ => id
  rcases r with fault | v
  · exact (together_note fun w v k l hwv => hwv.log k l).bind
      (fun _ => together_pure fun _ _ => id) fun _ _ _ => id
  · cases v <;> exact together_pure fun _ _ => id

/-- The same record writes its target on both sides. -/
theorem together_apply {r : Override} {o : Slot} (hname : r.name = o.name)
    (hscope : r.scope = o.scope) (ho : o.feature? = some g) (hg : g ≠ f) (w : World σ)
    (v : World τ) :
    Together (Aligned R w v) (r.apply s o.handle) (r.apply s' o.handle)
      (Applied R r o.handle w v) := by
  have asked : ∀ c : Call, c.feature? = some g →
      Together (Aligned R w v) (Act.attempt (ask s c)) (Act.attempt (ask s' c))
        fun _ => Aligned R w v := fun c hc =>
    (together_ask (Q := fun _ => Aligned R w v) fun w' v' hw' =>
      have both := h.others c g hc hg w'.outside v'.outside hw'.outside
      ⟨both.1, hw'.left, hw'.right, both.2⟩).attempt fun _ _ _ => id
  have kept : ∀ a : Except Fault Bool, Together (Aligned R w v)
      (pure (r, a)) (pure (r, a)) (Applied R r o.handle w v) := fun a =>
    together_pure fun w' v' hw' => ⟨hw', by rintro _ ⟨⟩; exact .inl rfl⟩
  unfold Override.apply
  rw [hname, hscope]
  have faulty : ∀ e w' v', Aligned R w v w' v' → Applied R r o.handle w v (.error e) w' v' :=
    fun e w' v' hw' => ⟨hw', by rintro _ ⟨⟩⟩
  refine (asked (.getOption o.scope o.handle o.name) ho).bind (fun current => ?_) faulty
  rcases current with fault | current
  · exact kept (.error fault)
  refine Together.ite (Q := Applied R r o.handle w v) (kept (.ok false)) ?_
  refine (asked (.setOption o.scope o.handle o.name r.target) ho).bind (fun a => ?_) faulty
  exact together_pure fun w' v' hw' => ⟨hw', by rintro _ ⟨⟩; exact .inr ⟨current, rfl⟩⟩

theorem together_override {o : Slot} (ho : o.scope = scopeOf o.name) (hof : o.feature? = some g)
    (hg : g ≠ f) (target : String) :
    Together (Beside f R document) (override s document o.name o.scope target o.handle)
      (override s' document o.name o.scope target o.handle) fun _ => Beside f R document := by
  have hne : o.feature? ≠ some f := fun e => hg (Option.some.inj (hof.symm.trans e))
  refine together_state fun w v hwv => ?_
  have same : (v.state.features.overrides document).record o.name o.scope (.text target) o.handle =
      (w.state.features.overrides document).record o.name o.scope (.text target) o.handle := by
    rw [← OverrideTable.record_without _ hne, ← hwv.records document,
      OverrideTable.record_without _ hne]
  have about := about_record (hwv.tidy.1 document) ho target
  dsimp only
  rw [same]
  let r := (w.state.features.overrides document).record o.name o.scope (.text target) o.handle
  have applied : Together (fun w' v' => w' = w ∧ v' = v) (r.apply s o.handle) (r.apply s' o.handle)
      (Applied R r o.handle w v) := by
    rintro _ _ ⟨rfl, rfl⟩
    exact together_apply h about.name about.scope hof hg _ _ _ _ ⟨rfl, rfl, hwv.outside⟩
  refine applied.bind (fun x => ?_) fun e w' v' hw' =>
    hwv.surroundings hw'.aligned.left hw'.aligned.right hw'.aligned.outside
  refine Together.bind (Q := fun _ => Beside f R document) (together_update ?_) (fun _ => ?_)
    fun _ _ _ => id
  · -- both file the record that they have, each in its own table
    intro w' v' hw'
    have beside : Beside f R document w' v' :=
      hwv.surroundings hw'.aligned.left hw'.aligned.right hw'.aligned.outside
    have filed : x.1.Filed (o.name, o.handle) := by
      rcases hw'.record x rfl with e | ⟨current, e⟩ <;> rw [e]
      · exact about.filed
      · exact about.filed.capture current
    refine beside.file ((hwv.tidy.1 document).put filed) ((hwv.tidy.2 document).put filed) ?_
    rw [OverrideTable.without_put_of_ne _ hne, OverrideTable.without_put_of_ne _ hne,
      hwv.records document]
  · rcases x.2 with fault | (_ | _)
    · exact together_fail fun _ _ => id
    · exact together_pure fun _ _ => id
    · exact together_note fun w v k l hwv => hwv.log k l

theorem together_display (hg : g ≠ f) (language : String) :
    Together (Beside f R document) (display s document language g) (display s' document language g)
      fun _ => Beside f R document := by
  have logged : ∀ (w : World σ) (v : World τ) k l, Beside f R document w v →
      Beside f R document { w with log := k } { v with log := l } := fun w v k l hwv => hwv.log k l
  cases g with
  | highlights =>
    exact (together_asked h (c := .startHighlighting document language) rfl hg).shielded logged
  | folds =>
    refine Together.shielded (together_state fun w v hwv => ?_) logged
    rw [hwv.targets]
    rintro _ _ ⟨rfl, rfl⟩
    refine Together.bind (R := fun _ => Beside f R document)
      (together_asked h (c := .viewOf document) rfl hg) (fun view => ?_) (fun _ _ _ => id) _ _ hwv
    exact (together_override h (o := ⟨.view, view, "foldmethod"⟩) rfl rfl hg _).bind
      (fun _ => together_override h (o := ⟨.view, view, "foldexpr"⟩) rfl rfl hg _) fun _ _ _ => id
  | indents =>
    refine Together.shielded (together_state fun w v hwv => ?_) logged
    rw [hwv.targets]
    rintro _ _ ⟨rfl, rfl⟩
    exact together_override h (o := ⟨.document, document, "indentexpr"⟩) rfl rfl hg _ _ _ hwv

/-- Another feature is shown, or not, on both sides. -/
theorem together_part (hg : g ≠ f) (language : String) (flags : Flags) :
    Together (Beside f R document) (part s document language flags g)
      (part s' document language flags g) fun _ => Beside f R document := by
  unfold part whenProvided
  refine Together.ite (Q := fun _ => Beside f R document) ?_ (together_pure fun _ _ => id)
  refine (together_hasQuery h hg language).bind (fun b => ?_) fun _ _ _ => id
  exact Together.ite (Q := fun _ => Beside f R document) (together_display h hg language)
    (together_pure fun _ _ => id)

/-! ## The feature itself -/

theorem beside_ignores (v : World τ) :
    Ignores s f document fun w => Beside f R document w v where
  log _ l hwv := hwv.log l v.log
  tidy _ hwv := hwv.tidy.1
  ask c hc _ hwv := hwv.surroundings rfl rfl (h.left c hc _ _ hwv.outside)
  file o target ho hof w r hwv hr := by
    have filed := (hwv.tidy.1 document).filed_renewed ho hr
    exact hwv.file_left ((hwv.tidy.1 document).put filed) (OverrideTable.without_put_self r hof)

/-- The feature is shown by each side in its own way. -/
theorem beside_part (language : String) (flags : Flags) :
    Together (Beside f R document) (part s document language flags f)
      (part s' document language flags f) fun _ => Beside f R document := by
  refine together_apart (fun v => ?_) fun w => ?_
  · exact leads_part_ignored (beside_ignores h v) language flags
  · exact (leads_part_ignored (beside_ignores h.symm w) language flags).mono
      (fun v hwv => hwv.symm) (fun _ v hwv => hwv.symm) fun _ => id

theorem together_each (g : Feature) (language : String) (flags : Flags) :
    Together (Beside f R document) (part s document language flags g)
      (part s' document language flags g) fun _ => Beside f R document := by
  by_cases hg : g = f
  · rw [hg]
    exact beside_part h language flags
  · exact together_part h hg language flags

/-- Two starts of a document leave nothing different but the one feature. -/
theorem together_start {w : World σ} {v : World τ} (hR : R w.outside v.outside)
    (hsame : v.state.features = w.state.features) (hw : w.state.features.Tidy) (language : String)
    (flags : Flags) :
    Together (fun w' v' => w' = w ∧ v' = v) (start s document language flags)
      (start s' document language flags) fun _ => Beside f R document := by
  have each : ∀ g, Together (Beside f R document) (part s document language flags g)
      (part s' document language flags g) fun _ => Beside f R document := fun g =>
    together_each h g language flags
  refine Together.bind (Q := fun _ => Beside f R document) (together_update ?_) (fun _ => ?_)
    fun _ _ _ => id
  · rintro u u' ⟨rfl, rfl⟩
    have active : (u.state.features.activate document).isActive document = true := by
      rw [activate, isActive_setOverrides]
      simp
    have tidy := (Proceeds.activate u.state.features document).tidy hw
    refine ⟨hR, ⟨tidy, ?_⟩, active, ?_, ?_, ?_⟩
    all_goals rw [hsame]
    · exact tidy
    · exact fun _ => rfl
    · exact fun _ => rfl
  · refine (each .highlights).bind (fun _ => ?_) fun _ _ _ => id
    refine (each .folds).bind (fun _ => ?_) fun _ _ _ => id
    refine (each .indents).bind (fun _ => ?_) fun _ _ _ => id
    exact together_note fun w v k l hwv => hwv.log k l

omit h

/-! ## The result -/

/-- After two starts in surroundings that differ by the calls about one feature, the other features
are the same: their options have the same values, what is highlighted is the same, and each document
has the same records of their options. -/
structure SameOthers (f : Feature) (value : σ → Slot → Value) (value' : τ → Slot → Value)
    (lit : σ → Handle → Option String) (lit' : τ → Handle → Option String) (v : World σ)
    (v' : World τ) : Prop where
  options : ∀ o : Slot, o.feature? ≠ some f → value v.outside o = value' v'.outside o
  highlighting : f ≠ .highlights → lit v.outside = lit' v'.outside
  records : ∀ d, (v.state.features.overrides d).without f = (v'.state.features.overrides d).without f

/-- Stopping a document does not fail, and puts every option back that has a value saved, unless the
write of this option is refused. -/
theorem stop_restores_others (hs : Fragile s value) {u : World σ} (hu : u.state.features.Tidy)
    (d : Handle) :
    let u' := play s (.stop d) u
    (stop s d).run u = (.ok (), u') ∧
      ∀ o x, (u.state.features.overrides d).saved? o = some x →
        (o ∉ refused s u u' → value u'.outside o = x) ∧
        (o ∈ refused s u u' → value u'.outside o = value u.outside o) := by
  intro u'
  obtain ⟨_, hok, -⟩ := (leads_stop_of (E := fun _ => False) (Blind.always (s := s)) d
    fun _ _ => trivial).exists_ok (w := u) trivial
  refine ⟨Prod.ext hok rfl, fun o x hx => ?_⟩
  obtain ⟨-, stopped⟩ := play_stop_fragile hs (hu d) o
  exact ⟨stopped.restored x hx, fun h => stopped.left (.inr h)⟩

/-- **Features do not depend on each other.** A document is started in two surroundings that look
the same, with the same features at first, where only the calls about one feature (its query, its
highlighting, its view, its options) may have different answers or fail. Neither start fails, the
document is active after both, and both have the same effect on the options, the highlighting and
the records of the other features. However things go on from there, a later stop of any document
does not fail, and puts back each option that has a value saved unless the write of this option is
refused: no other restore that fails, and no call about highlighting, keeps it from that. -/
theorem features_independent (h : Besides s s' f R value value' lit lit') (hs : Fragile s value)
    {w : World σ} {w' : World τ} (hR : R w.outside w'.outside)
    (hsame : w'.state.features = w.state.features) (hw : w.state.features.Tidy) (document : Handle)
    (language : String) (flags : Flags) :
    ∃ v v', (start s document language flags).run w = (.ok (), v) ∧
      (start s' document language flags).run w' = (.ok (), v') ∧
      v.state.features.isActive document = true ∧ v'.state.features.isActive document = true ∧
      SameOthers f value value' lit lit' v v' ∧
      ∀ (moves : List (Move σ)) (d : Handle),
        let u := playAll s moves v
        let u' := play s (.stop d) u
        (stop s d).run u = (.ok (), u') ∧
          ∀ o x, (u.state.features.overrides d).saved? o = some x →
            (o ∉ refused s u u' → value u'.outside o = x) ∧
            (o ∈ refused s u u' → value u'.outside o = value u.outside o) := by
  have together : Together (fun u u' => u = w ∧ u' = w') (start s document language flags)
      (start s' document language flags) fun _ => Beside f R document :=
    together_start h hR hsame hw language flags
  obtain ⟨hresult, beside⟩ := together w w' ⟨rfl, rfl⟩
  obtain ⟨_, hok, -⟩ := (leads_start_of (E := fun _ => False) (P := fun _ => True)
    (Blind.always (s := s)) document (fun _ _ => trivial) (fun _ _ _ => trivial) language
    flags).exists_ok (w := w) trivial
  refine ⟨_, _, Prod.ext hok rfl, Prod.ext (hresult.symm.trans hok) rfl, beside.shown,
    (beside.active document).symm.trans beside.shown, ⟨?_, ?_, beside.records⟩, fun moves d => ?_⟩
  · exact h.options _ _ beside.outside
  · exact fun hf => h.highlighting hf _ _ beside.outside
  · exact stop_restores_others hs (tidy_playAll moves beside.tidy.1) d

/-- Surroundings in which all calls about a feature fail. -/
def failing (f : Feature) (s : Surroundings σ) : Surroundings σ where
  reply c x := if c.feature? = some f then (.error (.external "failed"), x) else s.reply c x
  machine := s.machine

open Controller (typedEditor typedWorld typedEditor_screen)

/-- Two states of the editor differ by what belongs to one feature. -/
def SameBut (f : Feature) (x y : (Slot → Value) × (Handle → Option String)) : Prop :=
  (∀ o : Slot, o.feature? ≠ some f → x.1 o = y.1 o) ∧ (f ≠ .highlights → x.2 = y.2)

/-- Calls about a feature touch what belongs to it only. -/
theorem SameBut.left {x y : (Slot → Value) × (Handle → Option String)} (h : SameBut f x y) {c : Call}
    (hc : c.feature? = some f) : SameBut f (typedEditor.reply c x).2 y := by
  cases c with
  | setOption scope handle name v =>
    refine ⟨fun o ho => ?_, h.2⟩
    have hne : o ≠ ⟨scope, handle, name⟩ := fun e => ho (e ▸ hc)
    exact (Function.update_of_ne hne _ _).trans (h.1 o ho)
  | startHighlighting => exact ⟨h.1, fun hf => absurd (Option.some.inj hc).symm hf⟩
  | stopHighlighting => exact ⟨h.1, fun hf => absurd (Option.some.inj hc).symm hf⟩
  | _ => exact h

/-- Calls about another feature have the same answers and effects. -/
theorem SameBut.both {x y : (Slot → Value) × (Handle → Option String)} (h : SameBut f x y) {c : Call}
    (hc : c.feature? = some g) (hg : g ≠ f) :
    (typedEditor.reply c x).1 = (typedEditor.reply c y).1 ∧
      SameBut f (typedEditor.reply c x).2 (typedEditor.reply c y).2 := by
  cases c with
  | getOption scope handle name =>
    refine ⟨congrArg Except.ok (h.1 ⟨scope, handle, name⟩ fun e => hg ?_), h⟩
    exact Option.some.inj (hc.symm.trans e)
  | setOption scope handle name v =>
    refine ⟨rfl, fun o ho => ?_, h.2⟩
    show Function.update x.1 _ v o = Function.update y.1 _ v o
    by_cases e : o = ⟨scope, handle, name⟩
    · rw [e, Function.update_self, Function.update_self]
    · rw [Function.update_of_ne e, Function.update_of_ne e, h.1 o ho]
  | isHighlighting d =>
    cases hc
    refine ⟨?_, h⟩
    show Except.ok (x.2 d).isSome = Except.ok (y.2 d).isSome
    rw [h.2 hg.symm]
  | startHighlighting d l => exact ⟨rfl, h.1, fun hf => congrArg (Function.update · d _) (h.2 hf)⟩
  | stopHighlighting d => exact ⟨rfl, h.1, fun hf => congrArg (Function.update · d _) (h.2 hf)⟩
  | _ => exact ⟨rfl, h⟩

/-- The editor differs by the calls about a feature from one in which they fail. -/
theorem besides_failing (f : Feature) :
    Besides typedEditor (failing f typedEditor) f (SameBut f) Prod.fst Prod.fst Prod.snd
      Prod.snd where
  others c g hc hg x y h := by
    have hne : c.feature? ≠ some f := fun e => hg (Option.some.inj (hc.symm.trans e))
    simp only [failing, if_neg hne]
    exact h.both hc hg
  left c hc x y h := h.left hc
  right c hc x y h := by
    simp only [failing, if_pos hc]
    exact h
  options x y h := h.1
  highlighting hf x y h := h.2 hf

/-- A document is started in the editor, and in one in which all calls about folding fail. -/
theorem features_independent_folding :
    SameBut .folds typedWorld.outside typedWorld.outside ∧ Fragile typedEditor Prod.fst ∧
      typedWorld.state.features.Tidy ∧
      ∃ v v', (start typedEditor (.number 1) "tsx" ⟨false, true, true, true⟩).run typedWorld =
          (.ok (), v) ∧
        (start (failing .folds typedEditor) (.number 1) "tsx" ⟨false, true, true, true⟩).run
          typedWorld = (.ok (), v') ∧
        v.outside.1 indentSlot = v'.outside.1 indentSlot ∧ v.outside.2 = v'.outside.2 := by
  have same : SameBut .folds typedWorld.outside typedWorld.outside := ⟨fun _ _ => rfl, fun _ => rfl⟩
  have fragile : Fragile typedEditor Prod.fst := typedEditor_screen.store.fragile
  have tidy : typedWorld.state.features.Tidy := tidy_of_empty rfl
  obtain ⟨v, v', hv, hv', -, -, others, -⟩ := features_independent (besides_failing .folds) fragile
    same rfl tidy (.number 1) "tsx" ⟨false, true, true, true⟩
  refine ⟨same, fragile, tidy, v, v', hv, hv', ?_, ?_⟩
  · exact others.options indentSlot (by decide)
  · exact others.highlighting nofun

end Features

end TreeFeatures
