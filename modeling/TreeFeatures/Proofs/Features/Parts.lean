import TreeFeatures.Proofs.Features.Originals

/-!
# The features one by one

Showing the features of a document is three parts, one for each `Feature`. A part asks for the
query of its feature, and shows the feature if there is one (`Features.part`). All calls that it
makes are about its feature, and so are all records that it files.

* `Call.feature?`, `Slot.feature?` and `Moment.feature?` say which feature a call, an option or an
  answer is about.
* `Ignores`: a property of worlds that one feature cannot make false. `leads_part_ignored`: the part
  of that feature keeps it. `Framed`: options that only change when they are written.
* `tidy_playAll`: starts and stops leave all records where they belong.
-/

namespace TreeFeatures

open Act

namespace Feature

/-- The feature that a query is for. -/
def ofQuery? (name : String) : Option Feature :=
  if name = "highlights" then some highlights
  else if name = "folds" then some folds
  else if name = "indents" then some indents
  else none

@[simp] theorem ofQuery?_query (f : Feature) : ofQuery? f.query = some f := by
  cases f <;> rfl

/-- The feature that an option belongs to. -/
def ofOption? (name : String) : Option Feature :=
  if name = "foldmethod" ∨ name = "foldexpr" then some folds
  else if name = "indentexpr" then some indents
  else none

end Feature

/-- The feature that an option belongs to. -/
def Slot.feature? (o : Slot) : Option Feature := Feature.ofOption? o.name

/-- The feature that a call is about. -/
def Call.feature? : Call → Option Feature
  | .query _ name => Feature.ofQuery? name
  | .startHighlighting _ _ | .stopHighlighting _ | .isHighlighting _ => some .highlights
  | .viewOf _ => some .folds
  | .getOption _ _ name | .setOption _ _ name _ => Feature.ofOption? name
  | _ => none

/-- The feature that something which happened is about. -/
def Moment.feature? : Moment → Option Feature
  | .answered c _ => c.feature?
  | _ => none

/-- The option that is written belongs to the feature that the call is about. -/
theorem Call.feature?_of_written? {c : Call} {o : Slot} (h : c.written? = some o) :
    c.feature? = o.feature? := by
  cases c <;> cases h
  rfl

variable {σ : Type} {s : Surroundings σ} {value : σ → Slot → Value}

/-- The values of options of which a call changes none but the one that it writes. -/
def Framed (s : Surroundings σ) (value : σ → Slot → Value) : Prop :=
  ∀ (c : Call) x o, c.written? ≠ some o → value (s.reply c x).2 o = value x o

theorem Fragile.framed (hs : Fragile s value) : Framed s value := by
  intro c x o h
  cases hw : c.written? with
  | none => rw [hs.other c x hw]
  | some o' =>
    have ho : o ≠ o' := fun e => h (e ▸ hw)
    cases c with
    | setOption scope handle name v =>
      cases hw
      cases ha : (s.reply (.setOption scope handle name v) x).1 with
      | error f => rw [hs.refuse ⟨scope, handle, name⟩ v x f ha]
      | ok _ => rw [hs.accept ⟨scope, handle, name⟩ v x ha, Function.update_of_ne ho]
    | _ => cases hw

namespace Features

/-! ## Overriding an option -/

/-- The record that is written for an option is about that option. -/
structure About (t : OverrideTable) (o : Slot) (target : String) : Prop where
  filed : (t.record o.name o.scope (.text target) o.handle).Filed (o.name, o.handle)
  name : (t.record o.name o.scope (.text target) o.handle).name = o.name
  scope : (t.record o.name o.scope (.text target) o.handle).scope = o.scope

theorem about_record {t : OverrideTable} (ht : t.Proper) {o : Slot} (ho : o.scope = scopeOf o.name)
    (target : String) : About t o target :=
  have filed := ht.filed_record ho (.text target)
  ⟨filed, filed.name, filed.scope.trans ho.symm⟩

variable {P E I : World σ → Prop} {document : Handle} {language : String} {flags : Flags}

/-- Overriding an option asks about this option and files its record. -/
theorem leads_override_asking {o : Slot} (ho : o.scope = scopeOf o.name) (target : String)
    (hlog : ∀ w l, I w → I { w with log := l })
    (hproper : ∀ w, I w → (w.state.features.overrides document).Proper)
    (hget : ∀ w, I w → I (afterCall s (.getOption o.scope o.handle o.name) w))
    (hset : ∀ w x, I w → I (afterCall s (.setOption o.scope o.handle o.name x) w))
    (hfile : ∀ w r, I w →
      (w.state.features.overrides document).Renewed o.name o.scope (.text target) o.handle r →
      I (w.onFeatures fun f =>
        f.setOverrides document (Assoc.put (f.overrides document) (o.name, o.handle) r))) :
    Leads I (override s document o.name o.scope target o.handle) (fun _ => I) I := by
  refine leads_override_by (Q := fun _ => I) (fun u hu => ?_) (fun _ => hfile) hlog
  have about := about_record (hproper u hu) ho target
  exact (leads_apply_asking about.name about.scope hget hset).mono (fun _ hw => hw ▸ hu)
    (fun _ _ hw => hw.1) fun _ hw => hw

/-! ## Showing one feature -/

/-- Showing a feature asks for its query, and goes on from there if there is one. -/
theorem leads_part {f : Feature} {R : World σ → Prop} {Q : Bool → World σ → Prop}
    (hunwanted : flags.shows f = false → ∀ w, P w → R w)
    (hask : flags.shows f = true → ∀ w, P w →
      Q (provides (s.reply (.query language f.query) w.outside).1)
        (afterCall s (.query language f.query) w))
    (hlog : ∀ b w l, Q b w → Q b { w with log := l }) (habsent : ∀ w, Q false w → R w)
    (hdisplay : Leads (Q true) (display s document language f) (fun _ => R) E) :
    Leads P (part s document language flags f) (fun _ => R) E := by
  unfold part whenProvided
  split
  · next h =>
    refine (leads_hasQuery_of (hask h) hlog).bind fun b => ?_
    cases b with
    | false => exact leads_pure habsent
    | true => exact hdisplay
  · next h => exact leads_pure (hunwanted (by simpa using h))

/-- What showing each feature keeps, a start keeps. -/
theorem leads_start_each (hlog : ∀ w l, I w → I { w with log := l })
    (hactivate : ∀ w, P w → I (w.onFeatures fun f => f.activate document))
    (hask : ∀ name w, I w → I (afterCall s (.query language name) w))
    (hdisplay : ∀ f, Leads I (display s document language f) (fun _ => I) E) (flags : Flags) :
    Leads P (start s document language flags) (fun _ => I) E := by
  have shown : ∀ f, Leads I (part s document language flags f) (fun _ => I) E := fun f =>
    leads_part (Q := fun _ => I) (fun _ _ => id) (fun _ => hask f.query) (fun _ => hlog)
      (fun _ => id) (hdisplay f)
  refine Leads.bind (Q := fun _ => I) (leads_update hactivate) fun _ => ?_
  exact (shown .highlights).bind fun _ => (shown .folds).bind fun _ =>
    (shown .indents).bind fun _ => leads_note fun w hw => hlog w _ hw

/-- A property of worlds that the calls about one feature and the records of its options cannot make
false. -/
structure Ignores (s : Surroundings σ) (f : Feature) (document : Handle) (I : World σ → Prop) :
    Prop where
  log : ∀ w l, I w → I { w with log := l }
  tidy : ∀ w, I w → w.state.features.Tidy
  ask : ∀ c : Call, c.feature? = some f → ∀ w, I w → I (afterCall s c w)
  file : ∀ (o : Slot) target, o.scope = scopeOf o.name → o.feature? = some f → ∀ w r, I w →
    (w.state.features.overrides document).Renewed o.name o.scope (.text target) o.handle r →
    I (w.onFeatures fun f =>
      f.setOverrides document (Assoc.put (f.overrides document) (o.name, o.handle) r))

variable {f : Feature}

theorem Ignores.override (h : Ignores s f document I) {o : Slot} (ho : o.scope = scopeOf o.name)
    (hf : o.feature? = some f) (target : String) :
    Leads I (override s document o.name o.scope target o.handle) (fun _ => I) I :=
  leads_override_asking ho target h.log (fun w hw => h.tidy w hw document) (h.ask _ hf)
    (fun w x => h.ask (.setOption o.scope o.handle o.name x) hf w) (h.file o target ho hf)

theorem Ignores.display (h : Ignores s f document I) (language : String) :
    Leads I (display s document language f) (fun _ => I) E := by
  cases f with
  | highlights =>
    exact Leads.shielded (leads_ask (fun w _ hw _ => h.ask _ rfl w hw)
      fun w _ hw _ => h.ask _ rfl w hw) h.log
  | folds =>
    refine Leads.shielded (leads_state_any.bind fun st => ?_) h.log
    refine Leads.bind (Q := fun _ => I) (leads_ask (fun w _ hw _ => h.ask _ rfl w hw)
      fun w _ hw _ => h.ask _ rfl w hw) fun view => ?_
    exact (h.override (o := ⟨.view, view, "foldmethod"⟩) rfl rfl _).bind fun _ =>
      h.override (o := ⟨.view, view, "foldexpr"⟩) rfl rfl _
  | indents =>
    refine Leads.shielded (leads_state_any.bind fun st => ?_) h.log
    exact h.override (o := ⟨.document, document, "indentexpr"⟩) rfl rfl _

/-- Showing a feature keeps what ignores this feature, and does not fail. -/
theorem leads_part_ignored (h : Ignores s f document I) (language : String) (flags : Flags) :
    Leads I (part s document language flags f) (fun _ => I) E :=
  leads_part (Q := fun _ => I) (fun _ _ => id)
    (fun _ w hw => h.ask (.query language f.query) (Feature.ofQuery?_query f) w hw)
    (fun _ => h.log) (fun _ => id) (h.display language)

/-! ## Starts and stops -/

/-- Starts and stops leave all records where they belong. -/
theorem tidy_playAll (moves : List (Move σ)) {w : World σ} (hw : w.state.features.Tidy) :
    (playAll s moves w).state.features.Tidy := by
  induction moves generalizing w with
  | nil => exact hw
  | cons m rest ih =>
    refine ih ?_
    cases m with
    | start document language flags => exact keeps_start blind_tidy document language flags w hw
    | stop document => exact keeps_stop blind_tidy document w hw
    | meanwhile => exact hw

/-- The features that no document shows yet. -/
theorem tidy_of_empty {f : Features} (h : f.documents = []) : f.Tidy := by
  intro d
  rw [overrides, h]
  exact OverrideTable.proper_nil

end Features

end TreeFeatures
