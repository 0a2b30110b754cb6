import TreeFeatures.Proofs.Chronicle
import TreeFeatures.Proofs.Features.Restore

/-!
# When the original value of an option is lost

Features of any number of documents are started and stopped in any order, and any read and any
write of an option may fail (`Fragile`). Only the program changes options.

* `Standing` is what matters of an option: its value, and what the records of each document have
  saved for it. `leads_override_fragile` and `play_stop_fragile` say how an override and a stop
  change it (`Tried`, `Stopped`).
* `Guarded` is the invariant: the records have saved the original value and nothing else, and the
  option has it or the value shown with features. `Upheld` adds what this needs of a world.
* `Kept` is preserved by each move but one: `Guarded.kept_stopped`.
* `original_kept_iff`: the original value is lost by a stop that is refused to put it back, if no
  other document has saved it, and in no other way.
-/

namespace TreeFeatures

open Act

variable {σ : Type} {s : Surroundings σ} {value : σ → Slot → Value}

/-! ## Surroundings that refuse -/

/-- Surroundings whose options behave as a store while reads and writes may fail: an option that is
read has the value answered, a write that is accepted changes its own option and nothing else, and
one that is refused changes no option. -/
structure Fragile (s : Surroundings σ) (value : σ → Slot → Value) : Prop where
  read : ∀ (o : Slot) v x, (s.reply (.getOption o.scope o.handle o.name) x).1 = .ok v →
    value x o = v
  accept : ∀ (o : Slot) v x, (s.reply (.setOption o.scope o.handle o.name v) x).1 = .ok () →
    value (s.reply (.setOption o.scope o.handle o.name v) x).2 = Function.update (value x) o v
  refuse : ∀ (o : Slot) v x f, (s.reply (.setOption o.scope o.handle o.name v) x).1 = .error f →
    value (s.reply (.setOption o.scope o.handle o.name v) x).2 = value x
  other : ∀ c x, c.written? = none → value (s.reply c x).2 = value x

/-- Options that behave as a store allow for failures that never happen. -/
theorem Store.fragile (hs : Store s value) : Fragile s value where
  read o v x h := by
    rw [hs.read] at h
    exact Except.ok.inj h
  accept o v x _ := hs.write o v x
  refuse o v x f h := by
    rw [hs.accept] at h
    cases h
  other := hs.other

/-- The option whose writing was refused. -/
def Moment.refused? : Moment → Option Slot
  | .answered (.setOption scope handle name _) (.error _) => some ⟨scope, handle, name⟩
  | _ => none

/-- The options whose writing was refused on the way from one world to a later one. -/
def refused (s : Surroundings σ) (w v : World σ) : List Slot :=
  (extend s [] w v).filterMap Moment.refused?

theorem refused_self (w : World σ) : refused s w w = [] := by
  rw [refused, extend_self, List.filterMap_nil]

theorem refused_ask {w v : World σ} (h : Follows s w v) (c : Call) :
    refused s w (afterCall s c v) =
      (Moment.refused? (.answered c (s.reply c v.outside).1)).toList ++ refused s w v := by
  rw [refused, (h.ask c).2, List.filterMap_cons]
  cases Moment.refused? (.answered c (s.reply c v.outside).1) <;> rfl

/-- Only writes are refused. -/
theorem Moment.refused?_of_written? {c : Call} (h : c.written? = none) (r : Except Fault c.Reply) :
    Moment.refused? (.answered c r) = none := by
  cases c <;> first | rfl | exact absurd h (by simp [Call.written?])

/-! ## Standing -/

/-- What matters of an option: its value, and what the records of each document have saved. -/
@[ext]
structure Standing where
  current : Value
  saved : Handle → Option Value

/-- What matters of an option in a world. -/
def standing (value : σ → Slot → Value) (o : Slot) (w : World σ) : Standing :=
  ⟨value w.outside o, fun d => (w.state.features.overrides d).saved? o⟩

/-- The value that an option gets while features are shown. -/
def Targets.of (t : Targets) (name : String) : Value :=
  .text (if name = "foldmethod" then t.foldMethod
    else if name = "foldexpr" then t.foldExpr else t.indentExpr)

namespace Standing

/-- A document, for which an option has no target value yet, keeps the value found and tries to
write the target. -/
structure Tried (target : Value) (document : Handle) (p q : Standing) : Prop where
  differs : p.current.same target = false
  current : q.current = p.current ∨ q.current = target
  saved : q.saved = Function.update p.saved document ((p.saved document).or (some p.current))

/-- A document gives up what it has saved for an option, and the option gets it unless that is
refused. -/
structure Stopped (denied : Prop) (document : Handle) (p q : Standing) : Prop where
  saved : q.saved = Function.update p.saved document none
  restored : ∀ v, p.saved document = some v → ¬ denied → q.current = v
  left : p.saved document = none ∨ denied → q.current = p.current

/-- The records have saved nothing but the original value of an option, and the option has this
value or the target. -/
structure Guarded (original target : Value) (p : Standing) : Prop where
  saved : ∀ d v, p.saved d = some v → v = original
  current : p.current = original ∨ p.current = target

/-- The original value of an option is not lost: the option has it, or a document can put it back. -/
def Kept (original : Value) (p : Standing) : Prop :=
  p.current = original ∨ ∃ d, p.saved d = some original

variable {original target : Value} {document : Handle} {p q : Standing}

/-- A document that keeps the value found keeps the original one. -/
theorem Guarded.tried (h : Guarded original target p) (htarget : target.same target = true)
    (hq : Tried target document p q) :
    Guarded original target q ∧ (Kept original q ↔ Kept original p) := by
  have found : p.current = original := by
    refine h.current.resolve_right fun e => ?_
    have := hq.differs
    rw [e, htarget] at this
    cases this
  have kept : q.saved document = some original := by
    rw [hq.saved, Function.update_self, found]
    cases hd : p.saved document with
    | none => rfl
    | some v => rw [h.saved document v hd, Option.some_or]
  refine ⟨⟨fun d v hv => ?_, ?_⟩, fun _ => .inl found, fun _ => .inr ⟨document, kept⟩⟩
  · by_cases e : d = document
    · rw [e, kept, Option.some.injEq] at hv
      exact hv.symm
    · rw [hq.saved, Function.update_of_ne e] at hv
      exact h.saved d v hv
  · exact hq.current.imp_left fun e => e.trans found

/-- An option that no longer has its original value loses it for good: the only document that has
saved it gives it up and is refused. -/
structure Forfeited (original : Value) (denied : Prop) (document : Handle) (p : Standing) : Prop where
  changed : p.current ≠ original
  saved : p.saved document ≠ none
  alone : ∀ d, d ≠ document → p.saved d = none
  refused : denied

variable {denied : Prop}

theorem Stopped.eq_of_idle (hq : Stopped denied document p q) (hd : p.saved document = none) :
    q = p := by
  ext1
  · exact hq.left (.inl hd)
  · rw [hq.saved, ← hd, Function.update_eq_self]

/-- Only the other documents have something saved after a stop. -/
theorem Stopped.saved_eq_some (hq : Stopped denied document p q) {d : Handle} {v : Value} :
    q.saved d = some v ↔ d ≠ document ∧ p.saved d = some v := by
  rw [hq.saved]
  by_cases e : d = document
  · simp [e]
  · simp [e]

theorem Guarded.stopped (h : Guarded original target p) (hq : Stopped denied document p q) :
    Guarded original target q := by
  refine ⟨fun d v hv => h.saved d v (hq.saved_eq_some.mp hv).2, ?_⟩
  cases hd : p.saved document with
  | none => exact hq.eq_of_idle hd ▸ h.current
  | some v =>
    by_cases hdenied : denied
    · exact hq.left (.inr hdenied) ▸ h.current
    · exact .inl ((hq.restored v hd hdenied).trans (h.saved document v hd))

theorem Guarded.forfeited_iff (h : Guarded original target p)
    (hd : p.saved document = some original) (hdenied : denied) :
    Forfeited original denied document p ↔
      ¬ p.current = original ∧ ¬ ∃ d, d ≠ document ∧ p.saved d = some original := by
  constructor
  · intro hf
    refine ⟨hf.changed, fun ⟨d, hdne, hv⟩ => ?_⟩
    rw [hf.alone d hdne] at hv
    cases hv
  · rintro ⟨hchanged, hno⟩
    refine ⟨hchanged, by simp [hd], fun d hdne => ?_, hdenied⟩
    cases hv : p.saved d with
    | none => rfl
    | some v => exact absurd ⟨d, hdne, h.saved d v hv ▸ hv⟩ hno

/-- A stop loses the original value of an option exactly if it forfeits it. -/
theorem Guarded.kept_stopped (h : Guarded original target p) (hq : Stopped denied document p q) :
    Kept original q ↔ Kept original p ∧ ¬ Forfeited original denied document p := by
  cases hd : p.saved document with
  | none =>
    obtain rfl := hq.eq_of_idle hd
    exact ⟨fun hk => ⟨hk, fun hf => hf.saved hd⟩, And.left⟩
  | some v =>
    obtain rfl : v = original := h.saved document v hd
    have kept : Kept v p := .inr ⟨document, hd⟩
    by_cases hdenied : denied
    · rw [and_iff_right kept, h.forfeited_iff hd hdenied, ← or_iff_not_and_not, Kept,
        hq.left (.inr hdenied)]
      exact or_congr_right (exists_congr fun d => hq.saved_eq_some)
    · have back : q.current = v := hq.restored v hd hdenied
      exact ⟨fun _ => ⟨kept, fun hf => hdenied hf.refused⟩, fun _ => .inl back⟩

end Standing

/-! ## Worlds -/

namespace Features

open Standing

theorem standing_outside {v w : World σ} (hv : value v.outside = value w.outside)
    (hf : v.state.features = w.state.features) (o : Slot) :
    standing value o v = standing value o w := by
  rw [standing, hv, hf, standing]

/-- The records of one document change. -/
theorem saved_standing {v w : World σ} {document : Handle} (o : Slot)
    (h : ∀ d, document ≠ d → v.state.features.overrides d = w.state.features.overrides d) :
    (standing value o v).saved = Function.update (standing value o w).saved document
      ((v.state.features.overrides document).saved? o) := by
  funext d
  by_cases e : d = document
  · rw [e, Function.update_self]
    rfl
  · rw [Function.update_of_ne e]
    exact congrArg (OverrideTable.saved? · o) (h d (Ne.symm e))

/-- Writing a target where writes may be refused: the record and the options stay as they are, or
the record keeps the value found and the option may get the target. -/
theorem leads_apply_fragile (hs : Fragile s value) (o : Slot) {r : Override} (hn : r.name = o.name)
    (hc : r.scope = o.scope) (w : World σ) {E : World σ → Prop} :
    Leads (fun v => v = w) (r.apply s o.handle)
      (fun x v => v.state = w.state ∧
        ((x.1 = r ∧ value v.outside = value w.outside) ∨
          ((value w.outside o).same r.target = false ∧
            x.1 = r.capture o.handle (value w.outside o) ∧
            (value v.outside = value w.outside ∨
              value v.outside = Function.update (value w.outside) o r.target)))) E := by
  unfold Override.apply
  rw [hn, hc]
  refine Leads.bind (Q := fun answer v => v.state = w.state ∧ value v.outside = value w.outside ∧
    ∀ x, answer = .ok x → value w.outside o = x) (leads_attempt_ask ?_) fun answer => ?_
  · rintro v rfl
    exact ⟨rfl, hs.other _ _ rfl, fun x => hs.read o x v.outside⟩
  rcases answer with f | current
  · exact leads_pure fun v hv => ⟨hv.1, .inl ⟨rfl, hv.2.1⟩⟩
  dsimp only
  split
  · exact leads_pure fun v hv => ⟨hv.1, .inl ⟨rfl, hv.2.1⟩⟩
  · next hdiffers =>
    refine Leads.bind (Q := fun _ v => v.state = w.state ∧ value w.outside o = current ∧
      (value v.outside = value w.outside ∨
        value v.outside = Function.update (value w.outside) o r.target)) (leads_attempt_ask ?_)
      fun _ => leads_pure fun v hv => ?_
    · rintro v ⟨hstate, hvalue, hcurrent⟩
      refine ⟨hstate, hcurrent current rfl, ?_⟩
      cases ha : (s.reply (.setOption o.scope o.handle o.name r.target) v.outside).1 with
      | error f => exact .inl ((hs.refuse o _ _ f ha).trans hvalue)
      | ok _ => exact .inr ((hs.accept o _ _ ha).trans (by rw [hvalue]))
    · obtain ⟨hstate, rfl, hcase⟩ := hv
      exact ⟨hstate, .inr ⟨by simpa using hdiffers, rfl, hcase⟩⟩

/-- A document files a record: it saves what the record has saved, and for the option of the record
only. -/
theorem saved_filed {document : Handle} {v w : World σ}
    (ht : (w.state.features.overrides document).Proper) {o : Slot} (ho : o.scope = scopeOf o.name)
    {r : Override} (hr : r.Filed (o.name, o.handle))
    (hv : v.state.features = w.state.features.setOverrides document
      (Assoc.put (w.state.features.overrides document) (o.name, o.handle) r)) (o' : Slot) :
    (standing value o' v).saved =
      if o' = o then
        Function.update (standing value o' w).saved document (r.saved.map Prod.snd)
      else (standing value o' w).saved := by
  rw [saved_standing (w := w) o' fun d hd => by rw [hv, overrides_setOverrides_of_ne _ _ hd],
    hv, overrides_setOverrides_self, ht.saved?_put ho hr]
  split
  · rfl
  · exact Function.update_eq_self document (standing value o' w).saved

/-- A document files a record that has saved what was saved for its option before, and no option
changes. -/
theorem standing_filed {document : Handle} {v w : World σ}
    (ht : (w.state.features.overrides document).Proper) {o : Slot} (ho : o.scope = scopeOf o.name)
    {r : Override} (hr : r.Filed (o.name, o.handle))
    (hsaved : r.saved.map Prod.snd = (standing value o w).saved document)
    (hv : v.state.features = w.state.features.setOverrides document
      (Assoc.put (w.state.features.overrides document) (o.name, o.handle) r))
    (hvalue : value v.outside = value w.outside) (o' : Slot) :
    standing value o' v = standing value o' w := by
  refine Standing.ext (congrFun hvalue o') ?_
  rw [saved_filed ht ho hr hv]
  split
  · next e => rw [hsaved, e, Function.update_eq_self]
  · rfl

/-- A document files a record that keeps the value found, and the option of the record may get the
target. -/
theorem tried_filed {document : Handle} {v w : World σ}
    (ht : (w.state.features.overrides document).Proper) {o : Slot} (ho : o.scope = scopeOf o.name)
    {r : Override} (hr : r.Filed (o.name, o.handle))
    (hsaved : r.saved.map Prod.snd = (standing value o w).saved document)
    (hv : v.state.features = w.state.features.setOverrides document
      (Assoc.put (w.state.features.overrides document) (o.name, o.handle)
        (r.capture o.handle (value w.outside o))))
    (hdiffers : (value w.outside o).same r.target = false)
    (hvalue : value v.outside = value w.outside ∨
      value v.outside = Function.update (value w.outside) o r.target) (o' : Slot) :
    standing value o' v = standing value o' w ∨
      (o' = o ∧ Tried r.target document (standing value o' w) (standing value o' v)) := by
  by_cases e : o' = o
  · subst e
    refine .inr ⟨rfl, hdiffers, hvalue.imp (congrFun · o') fun h => ?_, ?_⟩
    · exact (congrFun h o').trans (Function.update_self _ _ _)
    · rw [saved_filed ht ho (hr.capture _) hv, if_pos rfl, OverrideTable.saved_capture, hsaved]
      rfl
  · refine .inl (Standing.ext ?_ ?_)
    · rcases hvalue with h | h
      · exact congrFun h o'
      · exact (congrFun h o').trans (Function.update_of_ne e _ _)
    · rw [saved_filed ht ho (hr.capture _) hv, if_neg e]

/-- What an override does to an option: nothing, or its document keeps the value found and tries to
write the target. -/
theorem leads_override_fragile (hs : Fragile s value) {document : Handle} {w : World σ}
    (ht : (w.state.features.overrides document).Proper) {o : Slot} (ho : o.scope = scopeOf o.name)
    (target : String) :
    let Q : World σ → Prop := fun v =>
      (∃ t : OverrideTable, t.Proper ∧
        v.state.features = w.state.features.setOverrides document t) ∧
      ∀ o', standing value o' v = standing value o' w ∨
        (o' = o ∧ Tried (.text target) document (standing value o' w) (standing value o' v))
    Leads (fun v => v = w) (override s document o.name o.scope target o.handle) (fun _ => Q) Q := by
  intro Q
  let r := (w.state.features.overrides document).record o.name o.scope (.text target) o.handle
  have hr : r.Filed (o.name, o.handle) := ht.filed_record ho (.text target)
  have hsaved : r.saved.map Prod.snd = (standing value o w).saved document :=
    ht.saved_record ho (.text target)
  have htarget : r.target = .text target := OverrideTable.target_record _ _ _ _ _
  have applied := leads_apply_fragile hs o hr.name (hr.scope.trans ho.symm) w (E := Q)
  refine leads_state_eq.bind fun st => ?_
  rintro u ⟨rfl, rfl⟩
  refine (applied.bind fun x => ?_) _ rfl
  refine Leads.bind (Q := fun _ => Q) (leads_update ?_) fun _ => ?_
  · rintro v ⟨hstate, ⟨hx, hvalue⟩ | ⟨hdiffers, hx, hvalue⟩⟩
    · rw [hstate, hx]
      refine ⟨⟨_, ht.put hr, rfl⟩, fun o' => .inl ?_⟩
      refine standing_filed ht ho hr hsaved ?_ ?_ o'
      · rfl
      · exact hvalue
    · rw [hstate, hx]
      refine ⟨⟨_, ht.put (hr.capture _), rfl⟩, fun o' => ?_⟩
      rw [← htarget]
      refine tried_filed ht ho hr hsaved ?_ hdiffers ?_ o'
      · rfl
      · exact hvalue
  · split
    · exact fun _ hv => hv
    · exact leads_pure fun _ hv => hv
    · exact leads_note fun _ hv => hv

/-- The invariant of starts and stops, for one option: the target values are the given ones, all
records stand where they belong, and none but the original value of the option is saved. -/
structure Upheld (value : σ → Slot → Value) (shown : Targets) (original : Value) (o : Slot)
    (w : World σ) : Prop where
  targets : w.state.features.targets = shown
  proper : ∀ d, (w.state.features.overrides d).Proper
  guarded : Guarded original (shown.of o.name) (standing value o w)

variable {shown : Targets} {original : Value} {o : Slot}

theorem Upheld.of_features {w v : World σ} (h : Upheld value shown original o w)
    (hf : v.state.features = w.state.features) (hv : standing value o v = standing value o w) :
    Upheld value shown original o v :=
  ⟨hf ▸ h.targets, hf ▸ h.proper, hv ▸ h.guarded⟩

theorem Upheld.setOverrides {w v : World σ} (h : Upheld value shown original o w)
    {document : Handle} {t : OverrideTable} (ht : t.Proper)
    (hf : v.state.features = w.state.features.setOverrides document t)
    (hv : Guarded original (shown.of o.name) (standing value o v)) :
    Upheld value shown original o v := by
  refine ⟨hf ▸ h.targets, fun d => ?_, hv⟩
  rw [hf]
  by_cases e : document = d
  · subst e
    rwa [overrides_setOverrides_self]
  · rw [overrides_setOverrides_of_ne _ _ e]
    exact h.proper d

/-- A start neither loses the original value of an option nor gets it back. -/
theorem Upheld.start (hs : Fragile s value) {w : World σ} (h : Upheld value shown original o w)
    (document : Handle) (language : String) (flags : Flags) :
    let v := play s (.start document language flags) w
    Upheld value shown original o v ∧
      (Kept original (standing value o v) ↔ Kept original (standing value o w)) := by
  let I (v : World σ) : Prop := Upheld value shown original o v ∧
    (Kept original (standing value o v) ↔ Kept original (standing value o w))
  have blind : Blind s [] [.features] I := by
    refine ⟨fun v l hv => ⟨hv.1.of_features rfl rfl, hv.2⟩, by simp, fun c hc v hv => ?_⟩
    have hvalue := hs.other c v.outside (Call.written?_of_area hc)
    have same : standing value o (afterCall s c v) = standing value o v :=
      standing_outside (v := afterCall s c v) hvalue rfl o
    exact ⟨hv.1.of_features rfl same, same ▸ hv.2⟩
  have overridden : ∀ (o' : Slot) target, o'.scope = scopeOf o'.name →
      .text target = shown.of o'.name →
      Keeps I (override s document o'.name o'.scope target o'.handle) := by
    intro o' target ho' htarget v hv
    obtain ⟨⟨t, ht, hf⟩, hcase⟩ :=
      (leads_override_fragile hs (hv.1.proper document) ho' target).run rfl
    rcases hcase o with same | ⟨rfl, tried⟩
    · exact ⟨hv.1.setOverrides ht hf (same ▸ hv.1.guarded), same ▸ hv.2⟩
    · have htext : (Value.text target).same (.text target) = true := by
        simp [Value.same, Value.sameAtom]
      rw [htarget] at tried htext
      obtain ⟨hguarded, hkept⟩ := hv.1.guarded.tried htext tried
      exact ⟨hv.1.setOverrides ht hf hguarded, hkept.trans hv.2⟩
  refine (leads_start_targets blind document (fun v hv => ?_) (fun v hv view => ?_)
    (fun v hv => ?_) language flags).run (P := I) ⟨h, Iff.rfl⟩
  · have same : standing value o (v.onFeatures fun f => f.activate document) =
        standing value o v := by
      refine Standing.ext rfl (funext fun d => ?_)
      exact congrArg (OverrideTable.saved? · o) (overrides_activate _ _ _)
    exact ⟨hv.1.setOverrides (hv.1.proper document) rfl (same ▸ hv.1.guarded), same ▸ hv.2⟩
  · rw [hv.1.targets]
    exact ⟨overridden ⟨.view, view, "foldmethod"⟩ shown.foldMethod rfl rfl,
      overridden ⟨.view, view, "foldexpr"⟩ shown.foldExpr rfl rfl⟩
  · rw [hv.1.targets]
    exact overridden ⟨.document, document, "indentexpr"⟩ shown.indentExpr rfl rfl

/-! ## Stopping -/

/-- Writing an option on the way from a world, where that may be refused: the option has the value,
or nothing changes and the refusal is known. -/
structure Wrote (s : Surroundings σ) (value : σ → Slot → Value) (o : Slot) (x : Value)
    (w v u : World σ) : Prop where
  state : u.state = v.state
  follows : Follows s w u
  outcome : (value u.outside = Function.update (value v.outside) o x ∧
      refused s w u = refused s w v) ∨
    (value u.outside = value v.outside ∧ refused s w u = o :: refused s w v)

theorem Wrote.ask (hs : Fragile s value) (o : Slot) (x : Value) {w v : World σ}
    (hv : Follows s w v) :
    Wrote s value o x w v (afterCall s (.setOption o.scope o.handle o.name x) v) := by
  refine ⟨rfl, (hv.ask (h := []) _).1, ?_⟩
  rw [refused_ask hv]
  cases ha : (s.reply (.setOption o.scope o.handle o.name x) v.outside).1 with
  | error f => exact .inr ⟨hs.refuse o x _ f ha, rfl⟩
  | ok _ => exact .inl ⟨hs.accept o x _ ha, rfl⟩

/-- The option that was written, if it had not been refused before. -/
theorem Wrote.self {o : Slot} {x : Value} {w v u : World σ} (h : Wrote s value o x w v u)
    (hv : o ∉ refused s w v) :
    (o ∉ refused s w u ∧ value u.outside o = x) ∨
      (o ∈ refused s w u ∧ value u.outside o = value v.outside o) := by
  rcases h.outcome with ⟨hvalue, href⟩ | ⟨hvalue, href⟩
  · refine .inl ⟨href ▸ hv, ?_⟩
    rw [hvalue, Function.update_self]
  · refine .inr ⟨?_, congrFun hvalue o⟩
    rw [href]
    exact List.mem_cons_self

/-- The other options. -/
theorem Wrote.of_ne {o o' : Slot} {x : Value} {w v u : World σ} (h : Wrote s value o' x w v u)
    (ho : o ≠ o') :
    value u.outside o = value v.outside o ∧ (o ∈ refused s w u ↔ o ∈ refused s w v) := by
  rcases h.outcome with ⟨hvalue, href⟩ | ⟨hvalue, href⟩
  · rw [hvalue, href]
    exact ⟨Function.update_of_ne ho _ _, Iff.rfl⟩
  · rw [hvalue, href, List.mem_cons, or_iff_right ho]
    exact ⟨rfl, Iff.rfl⟩

theorem leads_restore_fragile (hs : Fragile s value) (document : Handle) {k : String × Handle}
    {r : Override} (hr : r.Filed k) {x : Handle × Value} (hx : r.saved = some x) {w v : World σ}
    (hv : Follows s w v) {E : World σ → Prop} :
    Leads (fun u => u = v) (restore s document r)
      (fun _ => Wrote s value (.ofKey k) x.2 w v) E := by
  have hslot := hr.slot hx
  have logged : ∀ u l, Wrote s value (.ofKey k) x.2 w v u →
      Wrote s value (.ofKey k) x.2 w v { u with log := l } :=
    fun u l hu => ⟨hu.state, ⟨hu.follows.trace, hu.follows.outside⟩, hu.outcome⟩
  unfold restore Override.revert
  rw [hx]
  dsimp only
  rw [bind_assoc]
  refine Leads.bind (Q := fun _ => Wrote s value (.ofKey k) x.2 w v) (leads_attempt_ask ?_)
    fun a => ?_
  · rintro u rfl
    rw [← hslot]
    exact Wrote.ask hs ⟨r.scope, x.1, r.name⟩ x.2 hv
  · rcases a with f | _
    · exact leads_note fun u hu => logged u _ hu
    · exact leads_pure fun _ hu => hu

/-- How far putting the records of a table back has come, for one option: the records that are left
save for it what the table does, and nothing happened to it; or they save nothing for it, and it
was put back or this was refused. -/
structure Restoring (s : Surroundings σ) (value : σ → Slot → Value) (o : Slot) (t : OverrideTable)
    (w v : World σ) (rest : OverrideTable) (u : World σ) : Prop where
  state : u.state = v.state
  follows : Follows s w u
  proper : rest.Proper
  progress : (rest.saved? o = t.saved? o ∧ o ∉ refused s w u ∧
      value u.outside o = value v.outside o) ∨
    (rest.saved? o = none ∧ ∃ x, t.saved? o = some x ∧
      ((o ∉ refused s w u ∧ value u.outside o = x) ∨
        (o ∈ refused s w u ∧ value u.outside o = value v.outside o)))

theorem Restoring.next (hs : Fragile s value) (document : Handle) {t rest : OverrideTable}
    {e : (String × Handle) × Override} {w v : World σ} {E : World σ → Prop} :
    Leads (Restoring s value o t w v (e :: rest)) (restore s document e.2)
      (fun _ => Restoring s value o t w v rest) E := by
  intro u hu
  obtain ⟨k, r⟩ := e
  obtain ⟨hr, -, hrest⟩ := hu.proper.cons
  have hcons := hu.proper.saved?_cons o
  cases hsaved : r.saved with
  | none =>
    have stays : (restore s document r).run u = (.ok (), u) := by
      unfold restore Override.revert
      rw [hsaved]
      rfl
    have same : OverrideTable.saved? ((k, r) :: rest) o = rest.saved? o := by
      rw [hcons]
      split
      · next ho => rw [ho, hu.proper.saved?_ofKey, hsaved, Option.map_none]
      · rfl
    rw [stays]
    exact ⟨hu.state, hu.follows, hrest, same ▸ hu.progress⟩
  | some x =>
    refine (leads_restore_fragile hs document hr hsaved hu.follows).weaken (fun _ u' hu' => ?_) u rfl
    refine ⟨hu'.state.trans hu.state, hu'.follows, hrest, ?_⟩
    by_cases ho : o = .ofKey k
    · -- the record of the option: nothing happened to it until now
      rw [if_pos ho, hsaved, Option.map_some] at hcons
      rcases hu.progress with ⟨hsame, hnot, hvalue⟩ | ⟨hnone, -⟩
      · refine .inr ⟨ho ▸ hu.proper.saved?_ofKey, x.2, hsame.symm.trans hcons, ?_⟩
        rw [← ho] at hu'
        rw [← hvalue]
        exact hu'.self hnot
      · cases hcons.symm.trans hnone
    · -- another record, which leaves the option alone
      rw [if_neg ho] at hcons
      obtain ⟨hvalue, href⟩ := hu'.of_ne ho
      rw [hvalue, href, ← hcons]
      exact hu.progress

theorem Restoring.blind (hs : Fragile s value) (t : OverrideTable) (w v : World σ)
    (rest : OverrideTable) : Blind s [] [.features] (Restoring s value o t w v rest) where
  log u _ hu := ⟨hu.state, ⟨hu.follows.trace, hu.follows.outside⟩, hu.proper, hu.progress⟩
  write := by simp
  ask c hc u hu := by
    have hnone := Call.written?_of_area hc
    have hvalue : value (afterCall s c u).outside = value u.outside := hs.other c u.outside hnone
    refine ⟨hu.state, (hu.follows.ask (h := []) c).1, hu.proper, ?_⟩
    rw [refused_ask hu.follows, Moment.refused?_of_written? hnone, hvalue]
    exact hu.progress

/-- A stop makes its document give up what it has saved for each option. -/
theorem play_stop_fragile (hs : Fragile s value) {document : Handle} {w : World σ}
    (ht : (w.state.features.overrides document).Proper) (o : Slot) :
    let v := play s (.stop document) w
    v.state.features = w.state.features.drop document ∧
      Stopped (o ∈ refused s w v) document (standing value o w) (standing value o v) := by
  let t := w.state.features.overrides document
  let dropped := w.onFeatures fun f => f.drop document
  have begun : Restoring s value o t w dropped t dropped := by
    have follows : Follows s w w := .refl w
    have accepted : refused s w dropped = [] := refused_self w
    exact ⟨rfl, ⟨follows.trace, follows.outside⟩, ht, .inl ⟨rfl, by simp [accepted], rfl⟩⟩
  have done : Restoring s value o t w dropped [] (play s (.stop document) w) := by
    refine (leads_stop_by (Restoring.blind hs t w dropped t) document begun
      (fun _ => Leads.forM fun e rest => Restoring.next hs document) (fun hidle u hu => ?_)
      (Restoring.blind hs t w dropped []).log).run rfl
    have empty : t = [] := overrides_of_not_isActive hidle
    rw [empty] at hu ⊢
    exact hu
  have hfeatures : (play s (.stop document) w).state.features = w.state.features.drop document :=
    congrArg State.features done.state
  refine ⟨hfeatures, ?_, fun x hx hnot => ?_, fun hcase => ?_⟩
  · rw [saved_standing (w := w) o fun d hd => by rw [hfeatures, overrides_drop_of_ne _ hd],
      hfeatures, overrides_drop_self]
    rfl
  · rcases done.progress with ⟨hsame, -⟩ | ⟨-, x', hx', ⟨-, hback⟩ | ⟨hmem, -⟩⟩
    · cases hsame.trans hx
    · exact hback.trans (Option.some.inj (hx'.symm.trans hx))
    · exact absurd hmem hnot
  · rcases done.progress with ⟨-, -, hstays⟩ | ⟨-, x', hx', ⟨hnot, -⟩ | ⟨-, hstays⟩⟩
    · exact hstays
    · rcases hcase with hnone | hmem
      · cases hx'.symm.trans hnone
      · exact absurd hmem hnot
    · exact hstays

/-! ## Moves -/

/-- Stopping a document in a world loses the original value of an option: the option has another
value, no other document has saved anything for it, and putting it back is refused. -/
def Forfeits (s : Surroundings σ) (value : σ → Slot → Value) (original : Value) (o : Slot)
    (document : Handle) (w : World σ) : Prop :=
  Forfeited original (o ∈ refused s w (play s (.stop document) w)) document (standing value o w)

theorem Upheld.stop (hs : Fragile s value) {w : World σ} (h : Upheld value shown original o w)
    (document : Handle) :
    let v := play s (.stop document) w
    Upheld value shown original o v ∧
      (Kept original (standing value o v) ↔
        Kept original (standing value o w) ∧ ¬ Forfeits s value original o document w) := by
  intro v
  obtain ⟨hfeatures, stopped⟩ := play_stop_fragile hs (h.proper document) o
  refine ⟨⟨?_, fun d => ?_, h.guarded.stopped stopped⟩, h.guarded.kept_stopped stopped⟩
  · exact (congrArg Features.targets hfeatures).trans h.targets
  · rw [hfeatures]
    by_cases e : document = d
    · rw [e, overrides_drop_self]
      exact OverrideTable.proper_nil
    · rw [overrides_drop_of_ne _ e]
      exact h.proper d

/-- Each move keeps the original value if it is no stop that forfeits it. -/
theorem Upheld.play (hs : Fragile s value) {w : World σ} (h : Upheld value shown original o w)
    {m : Move σ} (hm : ∀ f, m = .meanwhile f → ∀ x, value (f x) = value x) :
    let v := play s m w
    Upheld value shown original o v ∧
      (Kept original (standing value o v) ↔ Kept original (standing value o w) ∧
        ∀ d, m = .stop d → ¬ Forfeits s value original o d w) := by
  cases m with
  | start document language flags =>
    obtain ⟨hv, hkept⟩ := h.start hs document language flags
    exact ⟨hv, hkept.trans (iff_self_and.mpr fun _ _ => nofun)⟩
  | stop document =>
    obtain ⟨hv, hkept⟩ := h.stop hs document
    refine ⟨hv, hkept.trans (and_congr_right fun _ => ⟨?_, fun hd => hd document rfl⟩)⟩
    rintro hd _ ⟨⟩
    exact hd
  | meanwhile f =>
    have same : standing value o (TreeFeatures.play s (.meanwhile f) w) = standing value o w :=
      standing_outside (v := TreeFeatures.play s (.meanwhile f) w) (hm f rfl w.outside) rfl o
    refine ⟨h.of_features rfl same, ?_⟩
    rw [same]
    exact iff_self_and.mpr fun _ _ => nofun

theorem Upheld.playAll (hs : Fragile s value) {w : World σ} (h : Upheld value shown original o w)
    {moves : List (Move σ)} (hm : ∀ f, .meanwhile f ∈ moves → ∀ x, value (f x) = value x) :
    Kept original (standing value o (playAll s moves w)) ↔ Kept original (standing value o w) ∧
      ∀ earlier d later, moves = earlier ++ .stop d :: later →
        ¬ Forfeits s value original o d (playAll s earlier w) := by
  induction moves generalizing w with
  | nil => exact iff_self_and.mpr fun _ earlier d later he => by simp at he
  | cons m rest ih =>
    obtain ⟨hv, hkept⟩ := h.play hs (m := m) fun f hf => hm f (hf ▸ List.mem_cons_self)
    refine (ih hv fun f hf => hm f (List.mem_cons_of_mem m hf)).trans ?_
    rw [hkept, and_assoc]
    refine and_congr_right fun _ => ⟨?_, fun hall => ⟨fun d hd => ?_, fun earlier d later he => ?_⟩⟩
    · rintro ⟨hfirst, hrest⟩ (_ | ⟨x, earlier⟩) d later he
      · exact hfirst d (List.cons.inj he).1
      · obtain ⟨rfl, he'⟩ := List.cons.inj he
        exact hrest earlier d later he'
    · exact hall [] d rest (by rw [hd]; rfl)
    · exact hall (m :: earlier) d later (by rw [he]; rfl)

/-- **The original value of an option is lost by a stop that is refused, and in no other way.** No
document shows features at first, reads and writes may fail at any point, and only starts and stops
change options. After any moves the option has its original value, or the records of a document have
it saved, if and only if no stop on the way forfeited it: the option had another value, no other
document had saved one, and the surroundings refused to put it back. Such a stop forgets the record
although nothing was put back. -/
theorem original_kept_iff (hs : Fragile s value) {w : World σ}
    (hw : w.state.features.documents = []) {moves : List (Move σ)}
    (hm : ∀ f, .meanwhile f ∈ moves → ∀ x, value (f x) = value x) (o : Slot) :
    Kept (value w.outside o) (standing value o (playAll s moves w)) ↔
      ∀ earlier d later, moves = earlier ++ .stop d :: later →
        ¬ Forfeits s value (value w.outside o) o d (playAll s earlier w) := by
  have empty : ∀ d, w.state.features.overrides d = [] := fun d => by
    rw [overrides, hw]
    rfl
  have initial : Upheld value w.state.features.targets (value w.outside o) o w := by
    refine ⟨rfl, fun d => empty d ▸ OverrideTable.proper_nil, fun d v hv => ?_, .inl rfl⟩
    have none : OverrideTable.saved? [] o = some v := empty d ▸ hv
    cases none
  refine (initial.playAll hs hm).trans (and_iff_right ?_)
  exact .inl rfl

/-- Surroundings whose options can be locked: no option can be written as long as they are. -/
def lockable (s : Surroundings σ) : Surroundings (σ × Bool) where
  reply c x :=
    if x.2 && c.written?.isSome then (.error (.external "locked"), x)
    else ((s.reply c x.1).1, (s.reply c x.1).2, x.2)
  machine x := s.machine x.1

theorem lockable_fragile (hs : Store s value) : Fragile (lockable s) fun x => value x.1 where
  read o v x h := by
    have hok : (s.reply (.getOption o.scope o.handle o.name) x.1).1 = .ok v := by
      simpa [lockable, Call.written?] using h
    rw [hs.read, Except.ok.injEq] at hok
    exact hok
  accept o v x h := by
    cases hl : x.2 <;> simp [lockable, Call.written?, hl, hs.write] at h ⊢
  refuse o v x f h := by
    cases hl : x.2 <;> simp [lockable, Call.written?, hl, hs.accept] at h ⊢
  other c x h := by simp [lockable, h, hs.other c x.1 h]

/-- The plain editor, where the options are not locked. -/
def unlockedWorld : World ((Slot → Value) × Bool) :=
  { plainWorld with outside := (plainWorld.outside, false) }

/-- A document is started that only indents, and then the options are locked. -/
def startAndLock : List (Move ((Slot → Value) × Bool)) :=
  [.start (.number 1) "lua" ⟨true, false, false, true⟩, .meanwhile fun x => (x.1, true)]

/-- Locking changes no option, whatever is stopped afterwards. -/
theorem lock_keeps (documents : List Handle) (f)
    (hf : .meanwhile f ∈ startAndLock ++ documents.map .stop) (x : (Slot → Value) × Bool) :
    (f x).1 = x.1 := by
  have locked : f = fun x => (x.1, true) := by simpa [startAndLock] using hf
  rw [locked]

/-- The indent option of the document. -/
def indentSlot : Slot := ⟨.document, .number 1, "indentexpr"⟩

theorem documents_locked :
    (playAll (lockable plainEditor) startAndLock unlockedWorld).state.features.documents =
      [(.number 1, [(("indentexpr", .number 1),
        ⟨"indentexpr", .document, .text ({} : Targets).indentExpr,
          some (.number 1, .text "user")⟩)])] := by
  with_unfolding_all rfl

/-- The document can put the original value back until it is stopped, which is refused. -/
theorem original_kept_until_stopped :
    let value : (Slot → Value) × Bool → Slot → Value := fun x => x.1
    let v := playAll (lockable plainEditor) startAndLock unlockedWorld
    Kept (.text "user") (standing value indentSlot v) ∧
      ¬ Kept (.text "user")
        (standing value indentSlot (play (lockable plainEditor) (.stop (.number 1)) v)) := by
  intro value v
  have fragile : Fragile (lockable plainEditor) value := lockable_fragile plainEditor_store
  refine ⟨(original_kept_iff fragile (w := unlockedWorld) rfl (lock_keeps []) indentSlot).mpr ?_,
    mt (original_kept_iff fragile (w := unlockedWorld) rfl (lock_keeps [.number 1])
      indentSlot).mp ?_⟩
  · intro earlier d later he
    have stopped : .stop d ∈ startAndLock ++ [].map .stop := he ▸ by simp
    simp [startAndLock] at stopped
  · have current : (standing value indentSlot v).current = .text ({} : Targets).indentExpr := by
      with_unfolding_all rfl
    have mine : (standing value indentSlot v).saved (.number 1) = some (.text "user") := by
      with_unfolding_all rfl
    have others : ∀ d, d ≠ .number 1 → (standing value indentSlot v).saved d = none := by
      intro d hd
      have : v.state.features.overrides d = [] := by
        rw [overrides, documents_locked]
        simp [Assoc.get?, hd.symm]
      exact congrArg (OverrideTable.saved? · indentSlot) this
    have denied : refused (lockable plainEditor) v (play (lockable plainEditor) (.stop (.number 1)) v)
        = [indentSlot] := by
      with_unfolding_all rfl
    refine fun h => h startAndLock (.number 1) [] rfl ⟨fun e => ?_, fun e => ?_, others, ?_⟩
    · exact absurd (Value.text.inj (current.symm.trans e)) (by decide)
    · cases mine.symm.trans e
    · rw [denied]
      exact List.mem_singleton_self _

/-- The value shown with features is all that is left of the option in the end: no record has the
original value. -/
theorem original_lost :
    let value : (Slot → Value) × Bool → Slot → Value := fun x => x.1
    let moves := startAndLock ++ [.stop (.number 1)]
    Fragile (lockable plainEditor) value ∧ unlockedWorld.state.features.documents = [] ∧
      (∀ f, .meanwhile f ∈ moves → ∀ x, value (f x) = value x) ∧
      ¬ Kept (value unlockedWorld.outside indentSlot)
        (standing value indentSlot (playAll (lockable plainEditor) moves unlockedWorld)) := by
  intro value moves
  have lost : standing value indentSlot (playAll (lockable plainEditor) moves unlockedWorld) =
      ⟨.text ({} : Targets).indentExpr, fun _ => none⟩ := by
    with_unfolding_all rfl
  refine ⟨lockable_fragile plainEditor_store, rfl, lock_keeps [.number 1], ?_⟩
  rw [lost]
  rintro (e | ⟨d, hd⟩)
  · exact absurd (Value.text.inj e) (by decide)
  · cases hd

end Features

end TreeFeatures
