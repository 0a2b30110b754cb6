import TreeFeatures.Proofs.Features.Originals

/-!
# Documents that share a view

Features of any number of documents are started and stopped in any order. A view may present one
document after the other, and several of them may be active in it. The options behave as a store
(`Store`), and only starts and stops change them.

* `Took`, `Started` and `Moved` say what a start, and any move, does to an option. Together with
  `Stopped` they are all that the rest needs to know of a move (`InPlace.play`).
* `Owned` is the invariant: an option has its original value and no document has saved it, or it has
  the value shown with features and exactly one document has saved the original one.
* `no_residue`: it holds after any moves, so that all options have their original values once all
  documents are stopped.
* `shown_until_writer_stops`: an active document keeps an option that is shown until the document
  is stopped whose start wrote it. That may be another document of the view
  (`fold_lost_with_other_document`).
-/

namespace TreeFeatures

open Act

variable {σ : Type} {s : Surroundings σ} {value : σ → Slot → Value}

/-! ## The values that are shown -/

/-- The value that features give to an option, if they override it at all. -/
def Targets.for? (t : Targets) : Slot → Option Value
  | ⟨.view, _, "foldmethod"⟩ => some (.text t.foldMethod)
  | ⟨.view, _, "foldexpr"⟩ => some (.text t.foldExpr)
  | ⟨.document, _, "indentexpr"⟩ => some (.text t.indentExpr)
  | _ => none

variable {shown : Targets} {o : Slot}

/-- A value that is shown equals itself. -/
theorem Targets.same_for? {x : Value} (h : shown.for? o = some x) : x.same x = true := by
  unfold Targets.for? at h
  split at h <;> cases h <;> simp [Value.same, Value.sameAtom]

/-! ## What a move does to an option -/

namespace Standing

/-- A document takes an option that does not have its target yet: the option gets the target, and
the document keeps the value found unless it has kept one before. -/
structure Took (target : Value) (document : Handle) (p q : Standing) : Prop where
  differs : p.current.same target = false
  current : q.current = target
  saved : q.saved = Function.update p.saved document ((p.saved document).or (some p.current))

/-- The start of a document leaves an option as it is, or the document takes it. It takes options
of any view, but of no document other than itself. -/
inductive Started (shown : Targets) (o : Slot) (document : Handle) (p q : Standing) : Prop
  | idle (same : q = p)
  | took (x : Value) (target : shown.for? o = some x)
      (own : o.scope = .document → o.handle = document) (took : Took x document p q)

/-- What a move does to an option that only starts and stops change. -/
def Moved (shown : Targets) (o : Slot) : Move σ → Standing → Standing → Prop
  | .start d _ _, p, q => Started shown o d p q
  | .stop d, p, q => Stopped False d p q
  | .meanwhile _, p, q => q = p

variable {original x : Value} {document : Handle} {p q r : Standing} {m : Move σ}

/-- An option that is shown is not taken. -/
theorem Started.eq_of_shown (h : Started shown o document p q)
    (hp : shown.for? o = some p.current) : q = p := by
  cases h with
  | idle same => exact same
  | took x target _ took =>
    obtain rfl : p.current = x := Option.some.inj (hp.symm.trans target)
    have differs := took.differs
    rw [Targets.same_for? hp] at differs
    cases differs

theorem Started.trans (h : Started shown o document p q) (h' : Started shown o document q r) :
    Started shown o document p r := by
  cases h with
  | idle same => exact same ▸ h'
  | took x target own took =>
    have stays : r = q := h'.eq_of_shown (took.current ▸ target)
    exact stays ▸ .took x target own took

/-! ## Who answers for an option -/

/-- An option has its original value and no document has saved it, or it has the value shown with
features, which is another one, and exactly one document has saved the original value. -/
inductive Owned (original : Value) (target : Option Value) (p : Standing) : Prop
  | free (current : p.current = original) (saved : ∀ d, p.saved d = none)
  | held (holder : Handle) (shown : target = some p.current) (changed : p.current ≠ original)
      (saved : ∀ d v, p.saved d = some v ↔ d = holder ∧ v = original)

theorem Owned.started (h : Owned original (shown.for? o) p) (hq : Started shown o document p q) :
    Owned original (shown.for? o) q := by
  cases h with
  | held holder target changed saved =>
    -- the one who holds the option is the only one who took it
    exact hq.eq_of_shown target ▸ .held holder target changed saved
  | free current saved =>
    cases hq with
    | idle same => exact same ▸ .free current saved
    | took x target _ took =>
      refine .held document (took.current ▸ target) (fun e => ?_) fun d v => ?_
      · have differs := took.differs
        rw [current, ← e, took.current, Targets.same_for? target] at differs
        cases differs
      · rw [took.saved, saved document, current]
        by_cases e : d = document
        · simp [e, eq_comm]
        · simp [e, saved d]

/-- A stop frees the option that its document holds, and no other. -/
theorem Owned.stopped {target : Option Value} (h : Owned original target p)
    (hq : Stopped False document p q) : Owned original target q := by
  cases h with
  | free current saved => exact hq.eq_of_idle (saved document) ▸ .free current saved
  | held holder shown changed saved =>
    by_cases e : document = holder
    · have back : q.current = original :=
        hq.restored original ((saved document original).mpr ⟨e, rfl⟩) not_false
      refine .free back fun d => ?_
      cases hd : q.saved d with
      | none => rfl
      | some v =>
        obtain ⟨hother, hv⟩ := hq.saved_eq_some.mp hd
        exact absurd (((saved d v).mp hv).1.trans e.symm) hother
    · have idle : p.saved document = none := by
        cases hd : p.saved document with
        | none => rfl
        | some v => exact absurd ((saved document v).mp hd).1 e
      exact hq.eq_of_idle idle ▸ .held holder shown changed saved

theorem Owned.moved (h : Owned original (shown.for? o) p) (hq : Moved shown o m p q) :
    Owned original (shown.for? o) q := by
  cases m with
  | start d _ _ => exact h.started hq
  | stop d => exact h.stopped hq
  | meanwhile f =>
    obtain rfl : q = p := hq
    exact h

/-- A stop leaves an option as it is if and only if its document does not hold the option. -/
theorem Owned.stays_iff {target : Option Value} (h : Owned original target p)
    (hq : Stopped False document p q) : q.current = p.current ↔ p.saved document = none := by
  cases hd : p.saved document with
  | none => exact iff_of_true (congrArg current (hq.eq_of_idle hd)) rfl
  | some v =>
    refine iff_of_false (fun e => ?_) (by simp)
    have back : q.current = v := hq.restored v hd not_false
    cases h with
    | free _ saved => cases (saved document).symm.trans hd
    | held holder _ changed saved =>
      exact changed (e.symm.trans (back.trans ((saved document v).mp hd).2))

/-- A move leaves an option that is shown, unless it stops the document that holds the option. -/
theorem Owned.shown_moved_iff (h : Owned original (shown.for? o) p)
    (hx : shown.for? o = some p.current) (hq : Moved shown o m p q) :
    q.current = p.current ↔ ∀ d, m = .stop d → p.saved d = none := by
  cases m with
  | start d _ _ => exact iff_of_true (congrArg current (hq.eq_of_shown hx)) nofun
  | stop d =>
    refine (h.stays_iff hq).trans ⟨?_, fun hd => hd d rfl⟩
    rintro hd _ ⟨⟩
    exact hd
  | meanwhile f => exact iff_of_true (congrArg current hq) nofun

/-- Only the document itself holds its own options. -/
theorem saved_moved (hscope : o.scope = .document) (hq : Moved shown o m p q)
    (hp : ∀ d, d ≠ o.handle → p.saved d = none) : ∀ d, d ≠ o.handle → q.saved d = none := by
  intro d hd
  cases m with
  | start e _ _ =>
    cases hq with
    | idle same => exact same ▸ hp d hd
    | took x _ own took =>
      rw [took.saved, Function.update_of_ne (own hscope ▸ hd), hp d hd]
  | stop e =>
    have hq : Stopped False e p q := hq
    rw [hq.saved]
    by_cases he : d = e
    · rw [he, Function.update_self]
    · rw [Function.update_of_ne he, hp d hd]
  | meanwhile f =>
    obtain rfl : q = p := hq
    exact hp d hd

end Standing

/-! ## Worlds -/

namespace Features

open Standing

/-- Features show the given values, and the records of all documents stand where they belong. -/
structure InPlace (shown : Targets) (w : World σ) : Prop where
  targets : w.state.features.targets = shown
  proper : ∀ d, (w.state.features.overrides d).Proper

theorem InPlace.setOverrides {w v : World σ} (h : InPlace shown w) {document : Handle}
    {t : OverrideTable} (ht : t.Proper)
    (hv : v.state.features = w.state.features.setOverrides document t) : InPlace shown v := by
  refine ⟨hv ▸ h.targets, fun d => ?_⟩
  rw [hv]
  by_cases e : document = d
  · rw [e, overrides_setOverrides_self]
    exact ht
  · rw [overrides_setOverrides_of_ne _ _ e]
    exact h.proper d

theorem InPlace.drop {w v : World σ} (h : InPlace shown w) {document : Handle}
    (hv : v.state.features = w.state.features.drop document) : InPlace shown v := by
  refine ⟨hv ▸ h.targets, fun d => ?_⟩
  rw [hv]
  by_cases e : document = d
  · rw [e, overrides_drop_self]
    exact OverrideTable.proper_nil
  · rw [overrides_drop_of_ne _ e]
    exact h.proper d

/-- An override of an option with the value that is shown there. -/
theorem InPlace.override (hs : Store s value) {w : World σ} (h : InPlace shown w)
    {document : Handle} {o' : Slot} (ho' : o'.scope = scopeOf o'.name) {target : String}
    (htarget : shown.for? o' = some (.text target))
    (hown : o'.scope = .document → o'.handle = document) :
    let v := ((override s document o'.name o'.scope target o'.handle).run w).2
    InPlace shown v ∧ ∀ o, Started shown o document (standing value o w) (standing value o v) := by
  obtain ⟨⟨t, ht, hf⟩, hcase⟩ :=
    (leads_override_fragile hs.fragile (h.proper document) ho' target).run rfl
  obtain ⟨v, hrun, -, hwrote⟩ := run_override hs (h.proper document) ho' target
  rw [hrun] at hf hcase ⊢
  refine ⟨h.setOverrides ht hf, fun o => ?_⟩
  rcases hcase o with same | ⟨rfl, tried⟩
  · exact .idle same
  · refine .took _ htarget hown ⟨tried.differs, ?_, tried.saved⟩
    rcases hwrote with ⟨hsame, -⟩ | ⟨-, -, -, hvalue⟩
    · cases hsame.symm.trans tried.differs
    · exact (congrFun hvalue o).trans (Function.update_self _ _ _)

theorem InPlace.start (hs : Store s value) {w : World σ} (h : InPlace shown w) (document : Handle)
    (language : String) (flags : Flags) :
    let v := play s (.start document language flags) w
    InPlace shown v ∧ ∀ o, Started shown o document (standing value o w) (standing value o v) := by
  let I (v : World σ) : Prop := InPlace shown v ∧
    ∀ o, Started shown o document (standing value o w) (standing value o v)
  have blind : Blind s [] [.features] I := by
    refine ⟨fun v l hv => ⟨⟨hv.1.targets, hv.1.proper⟩, hv.2⟩, by simp, fun c hc v hv => ?_⟩
    have hvalue := hs.other c v.outside (Call.written?_of_area hc)
    refine ⟨⟨hv.1.targets, hv.1.proper⟩, fun o => ?_⟩
    rw [standing_outside (v := afterCall s c v) hvalue rfl o]
    exact hv.2 o
  have overridden : ∀ (o' : Slot) target, o'.scope = scopeOf o'.name →
      shown.for? o' = some (.text target) → (o'.scope = .document → o'.handle = document) →
      Keeps I (Features.override s document o'.name o'.scope target o'.handle) := by
    intro o' target ho' htarget hown v hv
    obtain ⟨hv', hstarted⟩ := hv.1.override hs ho' htarget hown
    exact ⟨hv', fun o => (hv.2 o).trans (hstarted o)⟩
  refine (leads_start_targets blind document (fun v hv => ?_) (fun v hv view => ?_)
    (fun v hv => ?_) language flags).run (P := I) ⟨h, fun _ => .idle rfl⟩
  · refine ⟨hv.1.setOverrides (hv.1.proper document) rfl, fun o => ?_⟩
    have same : standing value o (v.onFeatures fun f => f.activate document) =
        standing value o v := by
      refine Standing.ext rfl (funext fun d => ?_)
      exact congrArg (OverrideTable.saved? · o) (overrides_activate _ _ _)
    exact same ▸ hv.2 o
  · rw [hv.1.targets]
    exact ⟨overridden ⟨.view, view, "foldmethod"⟩ shown.foldMethod rfl rfl nofun,
      overridden ⟨.view, view, "foldexpr"⟩ shown.foldExpr rfl rfl nofun⟩
  · rw [hv.1.targets]
    exact overridden ⟨.document, document, "indentexpr"⟩ shown.indentExpr rfl rfl fun _ => rfl

theorem InPlace.stop (hs : Store s value) {w : World σ} (h : InPlace shown w) (document : Handle) :
    let v := play s (.stop document) w
    InPlace shown v ∧
      ∀ o, Stopped False document (standing value o w) (standing value o v) := by
  obtain ⟨hfeatures, hvalue⟩ := play_stop hs (h.proper document)
  refine ⟨h.drop hfeatures, fun o => ?_⟩
  have saved := (play_stop_fragile hs.fragile (h.proper document) o).2.saved
  refine ⟨saved, fun x hx _ => ?_, fun hnone => ?_⟩
  · exact (congrFun hvalue o).trans (congrArg (Option.getD · _) hx)
  · exact (congrFun hvalue o).trans (congrArg (Option.getD · _) (hnone.resolve_right not_false))

/-- What a move does to each option. -/
theorem InPlace.play (hs : Store s value) {w : World σ} (h : InPlace shown w) {m : Move σ}
    (hm : ∀ f, m = .meanwhile f → ∀ x, value (f x) = value x) :
    let v := play s m w
    InPlace shown v ∧ ∀ o, Moved shown o m (standing value o w) (standing value o v) := by
  cases m with
  | start document language flags => exact h.start hs document language flags
  | stop document => exact h.stop hs document
  | meanwhile f =>
    refine ⟨⟨h.targets, h.proper⟩, fun o => ?_⟩
    exact standing_outside (v := TreeFeatures.play s (.meanwhile f) w) (hm f rfl w.outside) rfl o

/-- What each move keeps of an option, all of them keep. -/
theorem InPlace.playAll (hs : Store s value) {P : Standing → Prop} {moves : List (Move σ)}
    (hP : ∀ m ∈ moves, ∀ p q, P p → Moved shown o m p q → P q)
    (hm : ∀ f, .meanwhile f ∈ moves → ∀ x, value (f x) = value x) {w : World σ}
    (h : InPlace shown w) (hw : P (standing value o w)) :
    InPlace shown (playAll s moves w) ∧ P (standing value o (playAll s moves w)) := by
  induction moves generalizing w with
  | nil => exact ⟨h, hw⟩
  | cons m rest ih =>
    obtain ⟨hv, hmoved⟩ := h.play hs (m := m) fun f hf => hm f (hf ▸ List.mem_cons_self)
    refine ih (fun m' hm' => hP m' (List.mem_cons_of_mem m hm'))
      (fun f hf => hm f (List.mem_cons_of_mem m hf)) hv ?_
    exact hP m List.mem_cons_self _ _ hw (hmoved o)

/-! ## All documents stopped -/

theorem inPlace_of_empty (value : σ → Slot → Value) {w : World σ}
    (hw : w.state.features.documents = []) :
    InPlace w.state.features.targets w ∧
      ∀ o, (standing value o w).current = value w.outside o ∧
        ∀ d, (standing value o w).saved d = none := by
  have empty : ∀ d, w.state.features.overrides d = [] := fun d => by
    rw [overrides, hw]
    rfl
  refine ⟨⟨rfl, fun d => empty d ▸ OverrideTable.proper_nil⟩, fun o => ⟨rfl, fun d => ?_⟩⟩
  exact congrArg (OverrideTable.saved? · o) (empty d)

/-- A document that shows no features has nothing saved. -/
theorem saved_of_not_isActive {w : World σ} {d : Handle}
    (h : w.state.features.isActive d = false) (o : Slot) : (standing value o w).saved d = none :=
  congrArg (OverrideTable.saved? · o) (overrides_of_not_isActive h)

/-- A stop forgets its document, whatever becomes of the options. -/
theorem features_stop (document : Handle) (w : World σ) :
    (play s (.stop document) w).state.features = w.state.features.drop document := by
  have forgot : Blind s [] [.features, .options] fun v =>
      v.state.features = w.state.features.drop document :=
    ⟨fun _ _ h => h, by simp, fun _ _ _ h => h⟩
  refine (leads_stop_by (forgot.mono (by simp) (by simp)) document rfl (fun _ => ?_)
    (fun _ _ hv => hv) fun _ _ hv => hv).run rfl
  exact (Keeps.forM fun e _ => keeps_restore (forgot.mono (by simp) (by simp)) document e.2).leads

/-- No document is active once all active ones are stopped. -/
theorem not_isActive_stops {stops : List Handle} {v : World σ}
    (h : ∀ d, v.state.features.isActive d = true → d ∈ stops) (d : Handle) :
    (playAll s (stops.map .stop) v).state.features.isActive d = false := by
  induction stops generalizing v with
  | nil => exact Bool.eq_false_iff.mpr fun hd => absurd (h d hd) (by simp)
  | cons e rest ih =>
    refine ih fun d hd => ?_
    rw [features_stop] at hd
    by_cases he : e = d
    · rw [he, isActive_drop_self] at hd
      cases hd
    · rw [isActive_drop_of_ne _ he] at hd
      exact (List.mem_cons.mp (h d hd)).resolve_left (Ne.symm he)

/-- **Nothing is left behind, even in shared views.** No document shows features at first, and only
starts and stops change options; views may present other documents in between. After any moves each
option has its original value and no document has saved it, or it has the value shown with features
and exactly one document has saved the original one. Once the documents that are still active are
stopped, in any order, all options have their original values. -/
theorem no_residue (hs : Store s value) {w : World σ} (hw : w.state.features.documents = [])
    {moves : List (Move σ)} (hm : ∀ f, .meanwhile f ∈ moves → ∀ x, value (f x) = value x)
    {v : World σ} (hv : v = playAll s moves w) :
    (∀ d, (v.state.features.overrides d).Proper) ∧
      (∀ o, Owned (value w.outside o) (w.state.features.targets.for? o) (standing value o v)) ∧
      ∀ stops : List Handle, (∀ d, v.state.features.isActive d = true → d ∈ stops) →
        value (playAll s (stops.map .stop) v).outside = value w.outside := by
  obtain ⟨initial, hfree⟩ := inPlace_of_empty value hw
  have step : ∀ o (m : Move σ) p q,
      Owned (value w.outside o) (w.state.features.targets.for? o) p →
      Moved w.state.features.targets o m p q →
      Owned (value w.outside o) (w.state.features.targets.for? o) q :=
    fun o m p q hp hq => hp.moved hq
  have reached : ∀ o, InPlace w.state.features.targets v ∧
      Owned (value w.outside o) (w.state.features.targets.for? o) (standing value o v) := by
    intro o
    rw [hv]
    exact initial.playAll hs (fun m _ => step o m) hm (.free (hfree o).1 (hfree o).2)
  refine ⟨fun d => (reached ⟨.view, d, ""⟩).1.proper d, fun o => (reached o).2, ?_⟩
  intro stops hstops
  funext o
  have stopped : Owned (value w.outside o) (w.state.features.targets.for? o)
      (standing value o (playAll s (stops.map .stop) v)) :=
    ((reached o).1.playAll hs (fun m _ => step o m) (by simp) (reached o).2).2
  cases stopped with
  | free current _ => exact current
  | held holder _ _ saved =>
    have idle : (standing value o (playAll s (stops.map .stop) v)).saved holder = none :=
      saved_of_not_isActive (not_isActive_stops hstops holder) o
    cases idle.symm.trans ((saved holder _).mpr ⟨rfl, rfl⟩)

/-- A start that only folds. -/
def fold (document : Handle) : Move (Slot → Value) :=
  .start document "lua" ⟨true, false, true, false⟩

/-- The fold method of the view of the plain editor. -/
def foldSlot : Slot := ⟨.view, .number 10, "foldmethod"⟩

/-- Two documents that are folded in the view of the plain editor, one after the other. -/
def foldBoth : World (Slot → Value) :=
  playAll plainEditor [fold (.number 1), fold (.number 2)] plainWorld

/-- The document that came second has found the target values, and saved nothing. -/
theorem documents_foldBoth :
    let record (name target : String) (saved : Option (Handle × Value)) :
        (String × Handle) × Override :=
      ((name, .number 10), ⟨name, .view, .text target, saved⟩)
    let found : Option (Handle × Value) := some (.number 10, .text "user")
    foldBoth.state.features.documents =
      [(.number 1, [record "foldmethod" ({} : Targets).foldMethod found,
          record "foldexpr" ({} : Targets).foldExpr found]),
        (.number 2, [record "foldmethod" ({} : Targets).foldMethod none,
          record "foldexpr" ({} : Targets).foldExpr none])] := by
  with_unfolding_all rfl

/-- The view keeps the value of the user for the document that came first. Stopping both documents,
in either order, brings it back. -/
theorem no_residue_two_documents :
    (standing id foldSlot foldBoth).saved (.number 1) = some (.text "user") ∧
      (∀ d, d ≠ .number 1 → (standing id foldSlot foldBoth).saved d = none) ∧
      (playAll plainEditor [.stop (.number 1), .stop (.number 2)] foldBoth).outside =
        plainWorld.outside ∧
      (playAll plainEditor [.stop (.number 2), .stop (.number 1)] foldBoth).outside =
        plainWorld.outside := by
  have moves : ∀ f, .meanwhile f ∈ [fold (.number 1), fold (.number 2)] →
      ∀ x : Slot → Value, id (f x) = id x := by simp [fold]
  obtain ⟨-, howned, hstops⟩ :=
    no_residue plainEditor_store (w := plainWorld) rfl moves (v := foldBoth) rfl
  have active : ∀ d, foldBoth.state.features.isActive d = true → d = .number 1 ∨ d = .number 2 := by
    intro d hd
    rw [isActive, Assoc.has, documents_foldBoth] at hd
    by_contra h
    obtain ⟨h1, h2⟩ := not_or.mp h
    simp [Assoc.get?, Ne.symm h1, Ne.symm h2] at hd
  have mine : (standing id foldSlot foldBoth).saved (.number 1) = some (.text "user") := by
    with_unfolding_all rfl
  refine ⟨mine, fun d hd => ?_, ?_, ?_⟩
  · -- at most one document has saved anything
    rcases howned foldSlot with ⟨-, saved⟩ | ⟨holder, -, -, saved⟩
    · exact saved d
    · have hholder := ((saved _ _).mp mine).1
      cases h : (standing id foldSlot foldBoth).saved d with
      | none => rfl
      | some v => exact absurd (((saved d v).mp h).1.trans hholder.symm) hd
  · exact hstops [.number 1, .number 2] fun d hd => by simpa using active d hd
  · exact hstops [.number 2, .number 1] fun d hd => by simpa using (active d hd).symm

/-! ## One document stopped, another active -/

theorem blind_active (d : Handle) :
    Blind s [] [.features, .options] fun v => v.state.features.isActive d = true :=
  ⟨fun _ _ h => h, by simp, fun _ _ _ h => h⟩

/-- A document that was started is active. -/
theorem isActive_start (document : Handle) (language : String) (flags : Flags) (w : World σ) :
    (play s (.start document language flags) w).state.features.isActive document = true := by
  refine (leads_start_of (P := fun _ => True) (blind_active document) document (fun v _ => ?_)
    (fun v t hv => ?_) language flags).run trivial
  · exact (isActive_setOverrides _ _ _ _).trans (by simp)
  · exact (isActive_setOverrides _ _ _ _).trans (by simp)

/-- A document that is active stays so until it is stopped. -/
theorem isActive_playAll_of_not_stopped {d : Handle} {moves : List (Move σ)}
    (hm : .stop d ∉ moves) {w : World σ} (h : w.state.features.isActive d = true) :
    (playAll s moves w).state.features.isActive d = true := by
  induction moves generalizing w with
  | nil => exact h
  | cons m rest ih =>
    refine ih (fun hr => hm (List.mem_cons_of_mem m hr)) ?_
    cases m with
    | start e language flags =>
      refine keeps_start_of (blind_active d) e (fun v t hv => ?_) language flags w h
      exact (isActive_setOverrides _ _ _ _).trans (by rw [hv, Bool.or_true])
    | stop e =>
      have he : e ≠ d := fun he => hm (he ▸ List.mem_cons_self)
      rw [features_stop, isActive_drop_of_ne _ he]
      exact h
    | meanwhile f => exact h

/-- An option that is shown is so throughout a run, if and only if no document is stopped that holds
the option then. -/
theorem shown_throughout_iff (hs : Store s value) {w : World σ} (h : InPlace shown w)
    {original x : Value} (howned : Owned original (shown.for? o) (standing value o w))
    (hx : shown.for? o = some x) (ho : value w.outside o = x) {later : List (Move σ)}
    (hm : ∀ f, .meanwhile f ∈ later → ∀ x, value (f x) = value x) :
    (∀ earlier, earlier <+: later → value (playAll s earlier w).outside o = x) ↔
      ∀ earlier d, earlier ++ [.stop d] <+: later →
        (standing value o (playAll s earlier w)).saved d = none := by
  induction later generalizing w with
  | nil =>
    refine iff_of_true (fun earlier he => ?_) fun earlier d he => ?_
    · rw [List.prefix_nil.mp he]
      exact ho
    · simp at he
  | cons m rest ih =>
    obtain ⟨hv, hmoved⟩ := h.play hs (m := m) fun f hf => hm f (hf ▸ List.mem_cons_self)
    have step := howned.shown_moved_iff (hx.trans (congrArg some ho.symm)) (hmoved o)
    have next := fun hstay =>
      ih hv (howned.moved (hmoved o)) hstay fun f hf => hm f (List.mem_cons_of_mem m hf)
    constructor
    · intro hall earlier d he
      have hstay : value (play s m w).outside o = x := hall [m] ⟨rest, rfl⟩
      rcases earlier with _ | ⟨m', earlier⟩
      · exact step.mp (hstay.trans ho.symm) d (List.cons_prefix_cons.mp he).1.symm
      · obtain ⟨rfl, he'⟩ := List.cons_prefix_cons.mp he
        exact (next hstay).mp
          (fun e he => hall (m' :: e) (List.cons_prefix_cons.mpr ⟨rfl, he⟩)) earlier d he'
    · intro hall earlier he
      rcases earlier with _ | ⟨m', earlier⟩
      · exact ho
      · obtain ⟨rfl, he'⟩ := List.cons_prefix_cons.mp he
        have hstay : value (play s m' w).outside o = x :=
          (step.mpr fun d hd => hall [] d ⟨rest, by rw [hd]; rfl⟩).trans ho
        exact (next hstay).mpr
          (fun e d he => hall (m' :: e) d (List.cons_prefix_cons.mpr ⟨rfl, he⟩)) earlier he'

theorem playAll_append (moves later : List (Move σ)) (w : World σ) :
    playAll s (moves ++ later) w = playAll s later (playAll s moves w) :=
  List.foldl_append

/-- What a document has saved is its ledger. -/
theorem saved_eq_ledger (hs : Store s value) {w : World σ} (hw : w.state.features.documents = [])
    (moves : List (Move σ)) (d : Handle) (o : Slot) :
    (standing value o (playAll s moves w)).saved d =
      ledger s value d moves w (fun _ => none) o := by
  obtain ⟨initial, hfree⟩ := inPlace_of_empty value hw
  have tracks : Tracks d (fun _ => none) w := ⟨initial.proper d, fun o => (hfree o).2 d⟩
  exact (tracks.playAll hs moves).saved o

/-- **What an active document shows stays until the document is stopped that wrote it.** No document
shows features at first, and only starts and stops change options. Document `B` was started, and the
option has then the value that is shown with features; later `B` is not stopped. Then `B` is active,
also when another document `A` is stopped. Stopping `A` takes the option away if and only if a start
of `A` wrote it since the last stop of `A`; and the option is shown throughout if and only if no
document is stopped of which this is true. The indent option of `B` itself always stays. -/
theorem shown_until_writer_stops (hs : Store s value) {w : World σ}
    (hw : w.state.features.documents = []) {A B : Handle} (hAB : A ≠ B)
    {before ran later : List (Move σ)} {language : String} {flags : Flags}
    (hran : ran = before ++ [.start B language flags]) (hstop : .stop B ∉ later)
    (hm : ∀ f, .meanwhile f ∈ ran ++ later → ∀ x, value (f x) = value x)
    {u v v' : World σ} (hu : u = playAll s ran w) (hv : v = playAll s later u)
    (hv' : v' = play s (.stop A) v) {o : Slot} {x : Value}
    (hx : w.state.features.targets.for? o = some x) (ho : value u.outside o = x) :
    (v.state.features.isActive B = true ∧ v'.state.features.isActive B = true) ∧
      (value v.outside o = x → (value v'.outside o = x ↔
        ledger s value A (ran ++ later) w (fun _ => none) o = none)) ∧
      ((∀ earlier, earlier <+: later → value (playAll s earlier u).outside o = x) ↔
        ∀ earlier d, earlier ++ [.stop d] <+: later →
          ledger s value d (ran ++ earlier) w (fun _ => none) o = none) ∧
      (o = ⟨.document, B, "indentexpr"⟩ → value v.outside o = x ∧ value v'.outside o = x) := by
  have hlater : ∀ f, .meanwhile f ∈ later → ∀ x, value (f x) = value x :=
    fun f hf => hm f (List.mem_append_right _ hf)
  obtain ⟨initial, hfree⟩ := inPlace_of_empty value hw
  obtain ⟨hu', howned⟩ : InPlace w.state.features.targets u ∧
      Owned (value w.outside o) (w.state.features.targets.for? o) (standing value o u) :=
    hu ▸ initial.playAll hs (fun _ _ _ _ hp hq => hp.moved hq)
      (fun f hf => hm f (List.mem_append_left _ hf)) (.free (hfree o).1 (hfree o).2)
  obtain ⟨hplace, howned'⟩ : InPlace w.state.features.targets v ∧
      Owned (value w.outside o) (w.state.features.targets.for? o) (standing value o v) :=
    hv ▸ hu'.playAll hs (fun _ _ _ _ hp hq => hp.moved hq) hlater howned
  have ledger_eq : ∀ (earlier : List (Move σ)) d,
      (standing value o (playAll s earlier u)).saved d =
        ledger s value d (ran ++ earlier) w (fun _ => none) o := by
    intro earlier d
    rw [← saved_eq_ledger hs hw, playAll_append, ← hu]
  have active : v.state.features.isActive B = true := by
    rw [hv]
    refine isActive_playAll_of_not_stopped hstop ?_
    rw [hu, hran, playAll_append]
    exact isActive_start B language flags _
  have away : value v.outside o = x → (value v'.outside o = x ↔
      ledger s value A (ran ++ later) w (fun _ => none) o = none) := by
    intro hvx
    have stays := howned'.stays_iff ((hplace.stop hs A).2 o)
    rw [← ledger_eq, ← hv, ← hvx, hv']
    exact stays
  have throughout := shown_throughout_iff hs hu' howned hx ho hlater
  refine ⟨⟨active, ?_⟩, away, throughout.trans ?_, fun he => ?_⟩
  · rw [hv', features_stop, isActive_drop_of_ne _ hAB]
    exact active
  · exact forall₃_congr fun earlier d _ => by rw [ledger_eq]
  · -- nobody but `B` ever holds the indent option of `B`
    have own : ∀ earlier, earlier <+: later → ∀ d, d ≠ B →
        (standing value o (playAll s earlier u)).saved d = none := by
      intro earlier hearlier d hd
      have others : ∀ d, d ≠ o.handle →
          (standing value o (playAll s (ran ++ earlier) w)).saved d = none := by
        refine (initial.playAll hs (P := fun p => ∀ d, d ≠ o.handle → p.saved d = none)
          (fun m _ p q hp hq => saved_moved (by rw [he]) hq hp) (fun f hf => hm f ?_)
          fun d _ => (hfree o).2 d).2
        exact (List.mem_append.mp hf).elim (List.mem_append_left _)
          fun hf => List.mem_append_right _ (hearlier.subset hf)
      rw [hu, ← playAll_append]
      exact others d (by rw [he]; exact hd)
    have shown : value v.outside o = x := by
      refine hv ▸ throughout.mpr (fun earlier d hd => ?_) later List.prefix_rfl
      have hne : d ≠ B := fun hdB => hstop (hd.subset (by simp [hdB]))
      exact own earlier ((List.prefix_append _ _).trans hd) d hne
    refine ⟨shown, (away shown).mpr ?_⟩
    rw [← ledger_eq]
    exact own later List.prefix_rfl A hAB

/-- The document that came first has written the options of the view: the other one is stopped and
the first one goes on folding. -/
theorem shown_until_writer_stops_first :
    let v := play plainEditor (.stop (.number 2)) foldBoth
    v.state.features.isActive (.number 1) = true ∧
      v.outside foldSlot = .text ({} : Targets).foldMethod := by
  have folded : (play plainEditor (fold (.number 1)) plainWorld).outside foldSlot =
      .text ({} : Targets).foldMethod := by
    with_unfolding_all rfl
  have both : foldBoth.outside foldSlot = .text ({} : Targets).foldMethod := by
    with_unfolding_all rfl
  have unwritten : ledger plainEditor id (.number 2) [fold (.number 1), fold (.number 2)] plainWorld
      (fun _ => none) foldSlot = none := by
    rw [← saved_eq_ledger plainEditor_store rfl]
    with_unfolding_all rfl
  have run : foldBoth = playAll plainEditor [fold (.number 2)]
      (playAll plainEditor [fold (.number 1)] plainWorld) :=
    playAll_append [fold (.number 1)] [fold (.number 2)] plainWorld
  have started : [fold (.number 1)] = [] ++ [.start (.number 1) "lua" ⟨true, false, true, false⟩] :=
    rfl
  have runs_on : .stop (.number 1) ∉ [fold (.number 2)] := by simp [fold]
  obtain ⟨⟨-, active⟩, away, -⟩ := shown_until_writer_stops plainEditor_store (w := plainWorld) rfl
    (A := .number 2) (by decide) started runs_on (by simp [fold]) rfl run rfl (o := foldSlot) rfl
    folded
  exact ⟨active, (away both).mpr unwritten⟩

/-- The other way round: the document that came second is active and has found the options of the
view as it wants them. The first one is stopped, and the second one folds no more. -/
theorem fold_lost_with_other_document :
    let v := play plainEditor (.stop (.number 1)) foldBoth
    Store plainEditor id ∧ plainWorld.state.features.documents = [] ∧
      plainWorld.state.features.targets.for? foldSlot = some (foldBoth.outside foldSlot) ∧
      foldBoth.state.features.isActive (.number 2) = true ∧
      v.state.features.isActive (.number 2) = true ∧
      v.outside foldSlot = .text "user" ∧ v.outside foldSlot ≠ foldBoth.outside foldSlot := by
  intro v
  have active : foldBoth.state.features.isActive (.number 2) = true := by
    with_unfolding_all rfl
  have shown : foldBoth.outside foldSlot = .text ({} : Targets).foldMethod := by
    with_unfolding_all rfl
  have back : v.outside foldSlot = .text "user" := by
    with_unfolding_all rfl
  refine ⟨plainEditor_store, rfl, ?_, active, ?_, back, fun e => ?_⟩
  · rw [shown]
    rfl
  · show (play plainEditor (.stop (.number 1)) foldBoth).state.features.isActive (.number 2) = true
    rw [features_stop, isActive_drop_of_ne _ (by decide)]
    exact active
  · rw [back, shown] at e
    exact absurd (Value.text.inj e) (by decide)

end Features

end TreeFeatures
