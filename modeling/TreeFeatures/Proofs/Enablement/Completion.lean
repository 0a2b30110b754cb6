import TreeFeatures.Proofs.Enablement.Evidence
import TreeFeatures.Proofs.Reached

/-!
# What the end of an install does

The end of an install looks once whether the grammar of the language can be used: it is registered
after a success, or the language is bundled (`findsUsable`). What it does follows from that and from
the entries and documents that it finds.

* `leads_installed`: the end of an install, piece by piece. `Settled` says what it makes of the
  entries.
* `condemned_iff`: which entries become unavailable. After a failure the grammar is not tried, so a
  grammar that the editor would register may be condemned (`usable_condemned`).
* `waiter_started_iff`: which of the documents that waited are started. If the grammar is found not
  to be usable then none is, even if the filetype is available (`waiter_passed_over`).
-/

namespace TreeFeatures.Enablement

open Act Install

variable {σ : Type} (s : Surroundings σ)

/-- Whether the editor would register the grammar of a language. -/
def registers (l : String) (w : World σ) : Bool :=
  match (s.reply (.addLanguage l) w.outside).1 with
  | .ok (.bool b) => b
  | _ => false

/-- Whether the end of an install finds that the grammar of the language can be used. -/
def findsUsable (l : String) (success : Bool) (w : World σ) : Bool :=
  success && registers s l w || w.state.bundled.contains l

/-- The surroundings after the grammar was tried; it is only tried after a success. -/
def tried (l : String) (success : Bool) (w : World σ) : σ :=
  if success then (s.reply (.addLanguage l) w.outside).2 else w.outside

/-- The filetypes that the end of an install is about, managed or not. -/
def concerned (l : String) (success : Bool) (w : World σ) : List String :=
  (w.state.waitersOf l).map Waiter.filetype ++
    (s.reply (.filetypes l) (tried s l success w)).1.toOption.getD ([] : List String)

/-- What becomes of an entry that an install is about. -/
def settle (isAvailable : Bool) (a : Availability) : Availability :=
  if a = .available then .available else verdict isAvailable

/-- The entries after the end of an install, given the world before. -/
def Settled (l : String) (success : Bool) (w v : World σ) : Prop :=
  ∀ ft, Assoc.get? v.state.registry ft =
    if ft ∈ concerned s l success w then
      (Assoc.get? w.state.registry ft).map (settle (findsUsable s l success w))
    else Assoc.get? w.state.registry ft

@[simp] theorem settle_settle (b : Bool) (a : Availability) :
    settle b (settle b a) = settle b a := by
  cases b <;> cases a <;> rfl

theorem settle_eq_unavailable {b : Bool} {a : Availability} :
    settle b a = .unavailable ↔ b = false ∧ a ≠ .available := by
  cases b <;> cases a <;> decide

/-! ## The entries -/

variable {s} {l : String} {success : Bool} {w : World σ} {E I P Q : World σ → Prop}

/-- Trying a grammar changes nothing in the program. -/
theorem leads_grammarReady_exact (u : World σ) :
    Leads (fun v => v = u) (grammarReady s l)
      (fun b v => b = registers s l u ∧ v.state = u.state ∧
        v.outside = (s.reply (.addLanguage l) u.outside).2) fun _ => False := by
  refine Leads.bind (Q := fun r v => r = (s.reply (.addLanguage l) u.outside).1 ∧
    v.state = u.state ∧ v.outside = (s.reply (.addLanguage l) u.outside).2)
    (leads_attempt_ask ?_) fun r => Leads.assume fun hr => ?_
  · rintro v rfl
    exact ⟨rfl, rfl, rfl⟩
  · unfold registers
    rw [← hr]
    rcases r with f | x
    · refine Leads.bind (Q := fun _ v => v.state = u.state ∧
        v.outside = (s.reply (.addLanguage l) u.outside).2) (leads_note fun v hv => hv) fun _ => ?_
      exact leads_pure fun v hv => ⟨rfl, hv⟩
    · cases x with
      | bool b => exact leads_pure fun v hv => ⟨rfl, hv⟩
      | _ => exact leads_pure fun v hv => ⟨rfl, hv⟩

/-- What the end of an install finds. -/
theorem leads_usable_exact (u : World σ) :
    Leads (fun v => v = u) (usable s l success)
      (fun b v => b = findsUsable s l success u ∧ v.state = u.state ∧
        v.outside = tried s l success u) fun _ => False := by
  have rest : ∀ ready : Bool,
      Leads (fun v => ready = (success && registers s l u) ∧ v.state = u.state ∧
          v.outside = tried s l success u)
        (orBundled l ready)
        (fun b v => b = findsUsable s l success u ∧ v.state = u.state ∧
          v.outside = tried s l success u) fun _ => False := by
    refine fun ready => Leads.assume fun hready => ?_
    unfold orBundled findsUsable
    rw [← hready]
    cases ready with
    | true => exact leads_pure fun v hv => ⟨rfl, hv⟩
    | false =>
      refine leads_state_eq.bind fun st => leads_pure fun v hv => ⟨?_, hv.2⟩
      rw [hv.1, hv.2.1, Bool.false_or]
  unfold usable
  cases success with
  | true => exact (leads_grammarReady_exact u).bind rest
  | false =>
    refine Leads.bind (leads_pure ?_) rest
    rintro v rfl
    exact ⟨rfl, rfl, rfl⟩

/-- The filetypes that the editor lists. -/
theorem leads_listedFor_exact (st : State) (o : σ) :
    Leads (fun v : World σ => v.state = st ∧ v.outside = o) (listedFor s l)
      (fun fts v => fts = (s.reply (.filetypes l) o).1.toOption.getD ([] : List String) ∧
        v.state = st) fun _ => False := by
  refine Leads.bind (Q := fun r v => r = (s.reply (.filetypes l) o).1 ∧ v.state = st)
    (leads_attempt_ask ?_) fun r => Leads.assume fun hr => ?_
  · rintro v ⟨hst, ho⟩
    exact ⟨by rw [ho], hst⟩
  · rw [← hr]
    rcases r with f | listed
    · exact Leads.bind (Q := fun _ v => v.state = st) (leads_note fun v hv => hv) fun _ =>
        leads_pure fun v hv => ⟨rfl, hv⟩
    · exact leads_pure fun v hv => ⟨rfl, hv⟩

/-- The managed ones of some filetypes. -/
theorem leads_managedOf_exact (st : State) (filetypes : List String) :
    Leads (fun v : World σ => v.state = st) (managedOf filetypes)
      (fun fts v => (∀ ft, ft ∈ fts ↔ ft ∈ filetypes ∧ Assoc.has st.registry ft) ∧ v.state = st)
      fun _ => False := by
  refine leads_state_eq.bind fun st' => leads_pure fun v hv => ⟨fun ft => ?_, hv.2⟩
  rw [hv.1, hv.2, List.mem_filter, mem_distinct]

/-- The filetypes whose entries are set. -/
theorem leads_filetypesOf_exact (st : State) (o : σ) (waiters : List Waiter) :
    Leads (fun v : World σ => v.state = st ∧ v.outside = o) (filetypesOf s l waiters)
      (fun fts v => (∀ ft, ft ∈ fts ↔
        ft ∈ waiters.map Waiter.filetype ++
          (s.reply (.filetypes l) o).1.toOption.getD ([] : List String) ∧
        Assoc.has st.registry ft) ∧ v.state = st) fun _ => False := by
  refine (leads_listedFor_exact st o).bind fun listed => Leads.assume fun hlisted => ?_
  rw [← hlisted]
  exact leads_managedOf_exact st _

/-- Setting the entry of a managed filetype settles it, and no other one. -/
theorem leads_judge_exact (b : Bool) (r : Registry) {x : String} (hx : Assoc.has r x) :
    Leads (fun v : World σ => v.state.registry = r) (judge b x)
      (fun _ v => ∀ ft, Assoc.get? v.state.registry ft =
        if ft = x then (Assoc.get? r ft).map (settle b) else Assoc.get? r ft) fun _ => False := by
  obtain ⟨a, ha⟩ := Option.isSome_iff_exists.mp hx
  have entered : ∀ a', a' = settle b a → Leads (fun v : World σ => v.state.registry = r)
      (setAvailability x a')
      (fun _ v => ∀ ft, Assoc.get? v.state.registry ft =
        if ft = x then (Assoc.get? r ft).map (settle b) else Assoc.get? r ft) fun _ => False := by
    rintro a' rfl
    refine leads_setAvailability_by (fun _ _ hv => hv) fun v hv ft => ?_
    show Assoc.get? (Assoc.put v.state.registry x (settle b a)) ft = _
    rw [hv]
    by_cases e : ft = x
    · subst e
      rw [Assoc.get?_put_self, if_pos rfl, ha, Option.map_some]
    · rw [Assoc.get?_put_of_ne _ _ (Ne.symm e), if_neg e]
  unfold judge
  cases b with
  | true =>
    refine entered .available ?_
    cases a <;> rfl
  | false =>
    refine leads_state_eq.bind fun st => ?_
    split
    · next hknown =>
      -- what is available stays so
      refine leads_pure fun v hv ft => ?_
      rw [hv.1, hv.2, ha] at hknown
      rw [hv.2]
      by_cases e : ft = x
      · subst e
        rw [if_pos rfl, ha, Option.some.inj hknown]
        rfl
      · rw [if_neg e]
    · next hknown =>
      by_cases e : a = .available
      · refine Leads.mono (P := fun _ => False) (fun _ h => h.elim) (fun v hv => hknown ?_)
          (fun _ _ h => h) fun _ h => h
        rw [hv.1, hv.2, ha, e]
      · refine (entered .unavailable ?_).mono (fun v hv => hv.2) (fun _ _ h => h) fun _ h => h
        unfold settle
        rw [if_neg e]
        rfl

/-- Setting entries one after the other settles each of them. -/
theorem leads_judgeAll_exact (b : Bool) (r : Registry) {fts : List String}
    (hfts : ∀ ft ∈ fts, Assoc.has r ft) :
    Leads (fun v : World σ => v.state.registry = r) (fts.forM (judge b))
      (fun _ v => ∀ ft, Assoc.get? v.state.registry ft =
        if ft ∈ fts then (Assoc.get? r ft).map (settle b) else Assoc.get? r ft) fun _ => False := by
  -- in the end, an entry is what it would be if the rest were settled now
  let after (rest : List String) (r : Registry) (ft : String) : Option Availability :=
    if ft ∈ rest then (Assoc.get? r ft).map (settle b) else Assoc.get? r ft
  have loop : Leads
      (fun v : World σ => (∀ ft ∈ fts, Assoc.has v.state.registry ft) ∧
        ∀ ft, after fts v.state.registry ft = after fts r ft)
      (fts.forM (judge b))
      (fun _ v => (∀ ft ∈ ([] : List String), Assoc.has v.state.registry ft) ∧
        ∀ ft, after [] v.state.registry ft = after fts r ft) fun _ => False := by
    refine Leads.forM (J := fun rest v => (∀ ft ∈ rest, Assoc.has v.state.registry ft) ∧
      ∀ ft, after rest v.state.registry ft = after fts r ft) fun x rest v hv => ?_
    have hx : Assoc.has v.state.registry x := hv.1 x List.mem_cons_self
    have judged : Leads (fun u => u = v) (judge b x)
        (fun _ u => (∀ ft ∈ rest, Assoc.has u.state.registry ft) ∧
          ∀ ft, after rest u.state.registry ft = after fts r ft) fun _ => False := by
      refine (leads_judge_exact b v.state.registry hx).mono (fun u hu => by rw [hu])
        (fun _ u hu => ⟨fun y hy => ?_, fun ft => ?_⟩) fun _ h => h
      · have hy' : Assoc.has v.state.registry y := hv.1 y (List.mem_cons_of_mem x hy)
        unfold Assoc.has at hy' ⊢
        rw [hu y]
        split
        · rw [Option.isSome_map]
          exact hy'
        · exact hy'
      · rw [← hv.2 ft]
        simp only [after, hu ft, List.mem_cons]
        by_cases e : ft = x
        · simp [e, Option.map_map, Function.comp_def]
        · simp only [e, if_false, false_or]
    exact judged v rfl
  refine loop.mono (fun v hv => ?_) (fun _ v hv ft => ?_) fun _ h => h
  · rw [hv]
    exact ⟨hfts, fun _ => rfl⟩
  · exact hv.2 ft

/-- Recording whether a language can be used, piece by piece: first entries are set, and then the
documents that waited are started or left alone. -/
theorem leads_enact (hP : Blind s [.registry] [.editor] P) {b : Bool}
    (hb : b = findsUsable s l success w)
    (hstart : b = true → Leads (fun v => Settled s l success w v ∧ P v)
      (startWaiters s l (w.state.waitersOf l)) (fun _ => Q) E)
    (hleave : b = false → ∀ v, Settled s l success w v → P v → Q v) :
    Leads (fun v => (v.state = w.state.dequeue l ∧ v.outside = tried s l success w) ∧ P v)
      (enact s l (w.state.waitersOf l) b) (fun _ => Q) E := by
  have hP' : Blind s [] [.editor] P := hP.mono (by simp) (by simp)
  refine ((leads_filetypesOf_exact (w.state.dequeue l) (tried s l success w) _).and_keeps
    (keeps_filetypesOf hP' l _)).bind fun fts => ?_
  refine Leads.mono (P := fun v => (∀ ft, ft ∈ fts ↔ ft ∈ concerned s l success w ∧
    Assoc.has w.state.registry ft) ∧ v.state.registry = w.state.registry ∧ P v)
    (Leads.assume fun hfts => ?_) (fun v hv => ⟨hv.1.1, by rw [hv.1.2]; rfl, hv.2⟩)
    (fun _ _ h => h) fun _ h => h
  have judged : Leads (fun v => v.state.registry = w.state.registry ∧ P v) (fts.forM (judge b))
      (fun _ v => Settled s l success w v ∧ P v) E := by
    refine ((leads_judgeAll_exact b w.state.registry fun ft hft => ((hfts ft).mp hft).2).and_keeps
      (Keeps.forM fun ft _ => keeps_judge (hP.mono (by simp) (by simp)) b ft)).weaken
        fun _ v hv => ⟨fun ft => ?_, hv.2⟩
    rw [hv.1 ft, ← hb]
    by_cases hc : ft ∈ concerned s l success w
    · by_cases hm : Assoc.has w.state.registry ft
      · rw [if_pos ((hfts ft).mpr ⟨hc, hm⟩), if_pos hc]
      · have hnone : Assoc.get? w.state.registry ft = none := by simpa [Assoc.has] using hm
        rw [if_neg fun h => hm ((hfts ft).mp h).2, if_pos hc, hnone]
        rfl
    · rw [if_neg fun h => hc ((hfts ft).mp h).1, if_neg hc]
  refine judged.bind fun _ => ?_
  cases b with
  | true => exact hstart rfl
  | false => exact leads_note fun v hv => hleave rfl _ hv.1 (hP.log v _ hv.2)

/-- The end of an install, piece by piece: first entries are set, and then the documents that waited
are started or left alone. -/
theorem leads_installed (hP : Blind s [.registry] [.editor] P)
    (hw : P { w with state := w.state.dequeue l })
    (hstart : findsUsable s l success w = true →
      Leads (fun v => Settled s l success w v ∧ P v) (startWaiters s l (w.state.waitersOf l))
        (fun _ => Q) E)
    (hleave : findsUsable s l success w = false → ∀ v, Settled s l success w v → P v → Q v) :
    Leads (fun v => v = w) (installed s l success) (fun _ => Q) E := by
  refine Leads.bind (Q := fun st v => st = w.state ∧ v = w) (leads_state ?_) fun st =>
    Leads.assume fun hst => ?_
  · rintro v rfl
    exact ⟨rfl, rfl⟩
  subst hst
  refine Leads.bind (Q := fun _ v => v = { w with state := w.state.dequeue l } ∧ P v)
    (leads_update ?_) fun _ => ?_
  · rintro v rfl
    exact ⟨rfl, hw⟩
  refine ((leads_usable_exact { w with state := w.state.dequeue l }).and_keeps
    (keeps_usable (hP.mono (by simp) (by simp)) l success)).bind fun b => ?_
  refine Leads.mono (P := fun v => b = findsUsable s l success w ∧
    (v.state = w.state.dequeue l ∧ v.outside = tried s l success w) ∧ P v)
    (Leads.assume fun hb => ?_) (fun v hv => ⟨hv.1.1, hv.1.2, hv.2⟩) (fun _ _ h => h) fun _ h => h
  refine (leads_noteFallBack (fun v k hv => ⟨hv.1, hP.log v k hv.2⟩) _ _ _).bind fun _ => ?_
  exact leads_enact hP hb (hb ▸ hstart) (hb ▸ hleave)

theorem blind_settled {parts : List Part} {areas : List Area} (h : Part.registry ∉ parts) :
    Blind s parts areas (Settled s l success w) := by
  refine Blind.of_state (J := fun st => Settled s l success w { w with state := st })
    fun p hp st st' hst hs => ?_
  cases hst with
  | registry => exact absurd hp h
  | _ => exact hs

/-- The end of an install settles the entries that it is about, and no other ones. -/
theorem installed_settled (s : Surroundings σ) (l : String) (success : Bool) (w : World σ) :
    Settled s l success w ((installed s l success).run w).2 := by
  have started : Keeps (Settled s l success w) (startWaiters s l (w.state.waitersOf l)) :=
    keeps_startWaiters (blind_settled (by simp)) l _
  refine (leads_installed (P := fun _ => True) .always trivial (fun _ => ?_)
    fun _ v hv _ => hv).run rfl
  exact started.leads.mono (fun v hv => hv.1) (fun _ _ hv => hv) fun _ hv => hv

/-- **Which entries become unavailable.** The end of an install makes an entry unavailable if and
only if nothing was known about the filetype, the install is about it, the language is not bundled,
and the editor would not register the grammar now or is not asked to, since the install has
failed. -/
theorem condemned_iff (s : Surroundings σ) (l : String) (success : Bool) (w : World σ)
    (ft : String) :
    (Assoc.get? w.state.registry ft ≠ some .unavailable ∧
      Assoc.get? ((installed s l success).run w).2.state.registry ft = some .unavailable) ↔
    Assoc.get? w.state.registry ft = some .unknown ∧ ft ∈ concerned s l success w ∧
      l ∉ w.state.bundled ∧ (success = true → registers s l w = false) := by
  have unusable : findsUsable s l success w = false ↔
      l ∉ w.state.bundled ∧ (success = true → registers s l w = false) := by
    unfold findsUsable
    rw [Bool.or_eq_false_iff, Bool.and_eq_false_imp, List.contains_eq_mem, decide_eq_false_iff_not]
    exact and_comm
  rw [installed_settled s l success w ft, ← unusable]
  by_cases hc : ft ∈ concerned s l success w
  · rw [if_pos hc]
    cases Assoc.get? w.state.registry ft with
    | none => simp
    | some a =>
      rw [Option.map_some, Option.some.injEq, settle_eq_unavailable]
      cases a <;> simp [hc]
  · rw [if_neg hc]
    constructor
    · exact fun h => absurd h.2 h.1
    · exact fun h => absurd h.2.1 hc

/-- An editor whose state is the list of the grammars that it can register, with an installer that
takes its time and reports failure in the end. -/
def slowEditor : Surroundings (List String) where
  reply
    | .addLanguage language, x => (.ok (.bool (x.contains language)), x)
    | .isValid _, x => (.ok true, x)
    | .install _, x => (.ok (.later 0), x)
    | .collect _, x => (.ok (.bool false), x)
    | c, x => (grammarless (List String)).reply c x
  machine _ := .empty

/-- Lua and python are managed and installed when needed; no grammar is there. -/
def slowWorld : World (List String) :=
  .equipped [] { parsers := ["lua", "python"], flags := { autoInstall := true } }

/-- Of two languages that are installed together only lua gets there, and the installer reports
failure: lua becomes unavailable, though the editor would register its grammar all the time. -/
theorem usable_condemned :
    let steps : List (Step (List String)) :=
      [.call true .installAll, .work (.task 0), .meanwhile fun _ => ["lua"], .answer 0]
    let w := run slowEditor steps slowWorld
    let v := exec slowEditor (.work (.task 0)) w
    Initial slowWorld ∧ NoCancel steps ∧
      registers slowEditor "lua" w = true ∧ registers slowEditor "lua" v = true ∧
      v.state.loop.tasks = [{ languages := ["lua", "python"], phase := .finished false }] ∧
      Assoc.get? w.state.registry "lua" = some .unknown ∧
      Assoc.get? v.state.registry "lua" = some .unavailable := by
  refine ⟨⟨rfl, rfl⟩, fun id => by simp, ?_, ?_, ?_, ?_, ?_⟩ <;> decide +kernel

/-! ## The documents that waited -/

/-- The editor was asked whether it still has a document; if so, the document shows features. -/
def Attended (d : Handle) (h : List Moment) (st : State) : Prop :=
  ∃ r, .answered (.isValid d) r ∈ h ∧ (r = .ok true → st.features.isActive d = true)

/-- A document was attended to, unless it is among the rest of those that waited. -/
def Attending (y : Waiter) (rest : List Waiter) (h : List Moment) (st : State) : Prop :=
  y ∉ rest → Attended y.document h st

/-- The editor has answered whether it still has the next document. -/
structure Visited (x y : Waiter) (rest : List Waiter) (r : Except Fault Bool) (h : List Moment)
    (st : State) : Prop where
  answered : .answered (.isValid x.document) r ∈ h
  others : x.document ≠ y.document → Attending y rest h st

variable {x y : Waiter} {rest : List Waiter} {h : List Moment} {st : State}
  {r : Except Fault Bool}

theorem Attending.cons (ha : Attending y rest h st) (m : Moment) : Attending y rest (m :: h) st := by
  intro hy
  obtain ⟨r, hr, hactive⟩ := ha hy
  exact ⟨r, List.mem_cons_of_mem m hr, hactive⟩

/-- Documents that show features go on showing some while others are overridden. -/
theorem Attending.setOverrides (ha : Attending y rest h st) (d : Handle) (t : OverrideTable) :
    Attending y rest h { st with features := st.features.setOverrides d t } := by
  intro hy
  obtain ⟨r, hr, hactive⟩ := ha hy
  refine ⟨r, hr, fun hvalid => ?_⟩
  rw [Features.isActive_setOverrides, hactive hvalid, Bool.or_true]

theorem blind_attending {w : World σ} {areas : List Area} :
    Blind s [] areas (Recorded s h w (Attending y rest)) :=
  blind_recorded (fun m _ _ ha => ha.cons m) (by simp)

/-- A document that the editor does not have any more needs no more attention. -/
theorem Visited.attending (hv : Visited x y rest r h st) (hr : r ≠ .ok true) :
    Attending y rest h st := by
  by_cases e : x.document = y.document
  · exact fun _ => ⟨r, e ▸ hv.answered, fun hvalid => absurd hvalid hr⟩
  · exact hv.others e

/-- A document that is started shows features. -/
theorem Visited.activate (hv : Visited x y rest r h st) :
    Attending y rest h { st with features := st.features.activate x.document } := by
  by_cases e : x.document = y.document
  · refine fun _ => ⟨r, e ▸ hv.answered, fun _ => ?_⟩
    unfold Features.activate
    rw [Features.isActive_setOverrides, decide_eq_true e, Bool.true_or]
  · exact (hv.others e).setOverrides _ _

theorem leads_startWaiter (flags : Flags) :
    Leads (Recorded s h w (Attending y (x :: rest))) (startWaiter s l flags x)
      (fun _ => Recorded s h w (Attending y rest)) E := by
  have visited : ∀ v, Recorded s h w (Attending y (x :: rest)) v →
      Recorded s h w (Visited x y rest (s.reply (.isValid x.document) v.outside).1)
        (afterCall s (.isValid x.document) v) := by
    intro v hv
    refine (hv.ask _).mono fun h st ⟨h', he, ha⟩ => ?_
    subst he
    refine ⟨List.mem_cons_self, fun e => Attending.cons (fun hy => ha ?_) _⟩
    rw [List.mem_cons, not_or]
    exact ⟨fun exy => e (exy ▸ rfl), hy⟩
  refine Leads.shielded (Leads.bind (Q := fun b => Recorded s h w (Visited x y rest (.ok b)))
    (leads_ask (fun v b hv hb => hb ▸ visited v hv) fun v f hv hf => ?_) fun b => ?_)
    fun v log hv => hv.log log
  · exact (hf ▸ visited v hv).mono fun _ _ hvisited => hvisited.attending nofun
  · cases b with
    | true =>
      exact Features.leads_start_of blind_attending x.document
        (fun v hv => hv.update fun _ hvisited => hvisited.activate)
        (fun v t hv => hv.update fun _ ha => ha.setOverrides x.document t) l flags
    | false =>
      exact leads_pure fun v hv => hv.mono fun _ _ hvisited => hvisited.attending nofun

/-- Every document that waited is attended to, while documents are attached by themselves. -/
theorem leads_startWaiters {waiters : List Waiter} (hy : y ∈ waiters) :
    Leads (fun v => v.state.autoAttach = true ∧ v.state.settings ≠ none ∧
        Recorded s h w (fun _ _ => True) v)
      (startWaiters s l waiters) (fun _ => Recorded s h w (Attended y.document)) E := by
  refine leads_state_eq.bind fun st => ?_
  split
  · refine Leads.mono (P := fun v => v.state.settings ≠ none ∧
      Recorded s h w (Attending y waiters) v) ?_ (fun v hv => ⟨hv.2.2.1, ?_⟩) (fun _ _ hv => hv)
      fun _ hv => hv
    · refine (leads_resolve_of_known (fun v hv => hv.1) _).bind fun flags => ?_
      refine Leads.mono (P := Recorded s h w (Attending y waiters)) ?_ (fun v hv => hv.2)
        (fun _ _ hv => hv) fun _ hv => hv
      refine (Leads.forM (J := fun rest => Recorded s h w (Attending y rest))
        fun x rest => leads_startWaiter flags).weaken fun _ v hv => ?_
      exact hv.mono fun _ _ ha => ha List.not_mem_nil
    · exact hv.2.2.2.mono fun _ _ _ hn => absurd hy hn
  · next hauto =>
    refine Leads.mono (P := fun _ => False) (fun _ hv => hv.elim) (fun v hv => hauto ?_)
      (fun _ _ hv => hv) fun _ hv => hv
    rw [hv.1]
    exact hv.2.1

/-- If the grammar is found to be usable, every document that waited is attended to. -/
theorem leads_installed_of_usable (hw : Configured w.state) (hy : y ∈ w.state.waitersOf l)
    (hauto : w.state.autoAttach = true) (husable : findsUsable s l success w = true) :
    Leads (fun v => v = w) (installed s l success) (fun _ => Recorded s [] w (Attended y.document))
      E := by
  have blind : Blind s [.registry] [.editor]
      (Recorded s [] w fun _ st => st.autoAttach = true ∧ st.settings ≠ none) := by
    refine blind_recorded (fun _ _ _ hst => hst) fun p hp _ st st' hst h => ?_
    cases hst with
    | registry => exact h
    | _ => simp at hp
  refine leads_installed blind ?_ (fun _ => ?_) fun hb => ?_
  · exact (Recorded.refl (K := fun _ st => st.autoAttach = true ∧ st.settings ≠ none)
      ⟨hauto, hw l (List.ne_nil_of_mem hy)⟩).update fun _ hst => hst
  · exact (leads_startWaiters hy).mono (fun v hv => ⟨hv.2.holds.1, hv.2.holds.2,
      hv.2.mono fun _ _ _ => trivial⟩) (fun _ _ hv => hv) fun _ hv => hv
  · rw [husable] at hb
    cases hb

/-- If the grammar is found not to be usable, no features are shown or hidden. -/
theorem leads_installed_of_not_usable (husable : findsUsable s l success w = false) :
    Leads (fun v => v = w) (installed s l success)
      (fun _ v => v.state.features = w.state.features) E := by
  refine leads_installed (P := fun v => v.state.features = w.state.features)
    (Blind.of_state (J := fun st => st.features = w.state.features) fun p hp st st' hst h => ?_)
    rfl (fun hb => ?_) fun _ v _ hv => hv
  · cases hst with
    | registry => exact h
    | _ => simp at hp
  · rw [husable] at hb
    cases hb

/-- The end of an install does not change whether documents are attached by themselves. -/
theorem autoAttach_installed (s : Surroundings σ) (l : String) (success : Bool) (w : World σ) :
    ((installed s l success).run w).2.state.autoAttach = w.state.autoAttach := by
  refine keeps_installed (I := fun v => v.state.autoAttach = w.state.autoAttach)
    (Blind.of_state (J := fun st => st.autoAttach = w.state.autoAttach)
      fun p hp st st' hst h => ?_) (fun _ h => h) success w rfl
  cases hst <;> first | exact h | simp at hp

/-- **Which of the documents that waited are started.** A document `y` waits for a language in any
world that is reached, and the end of an install of the language leaves the filetype of `y`
available. If documents are attached by themselves, and whenever the editor is asked for `y` it
still has it, then the end of the install does not fail, and `y` shows features after it if and only
if it did before or the grammar is found to be usable. If it is not, the filetype was available
already when the install ended. -/
theorem waiter_started_iff (hw : Reached s w) (hy : y ∈ w.state.waitersOf l) {v : World σ}
    (hv : ((installed s l success).run w).2 = v)
    (havailable : Assoc.get? v.state.registry y.filetype = some .available)
    (hauto : v.state.autoAttach = true)
    (hvalid : ∀ r, .answered (.isValid y.document) r ∈ extend s [] w v → r = .ok true) :
    ((installed s l success).run w).1 = .ok () ∧
    (v.state.features.isActive y.document = true ↔
      w.state.features.isActive y.document = true ∨ findsUsable s l success w = true) ∧
    (findsUsable s l success w = false →
      Assoc.get? w.state.registry y.filetype = some .available) := by
  rw [← hv, autoAttach_installed] at hauto
  cases husable : findsUsable s l success w with
  | true =>
    obtain ⟨_, hok, attended⟩ := (leads_installed_of_usable (E := fun _ => False) hw.configured hy
      hauto husable).exists_ok rfl
    rw [hv] at attended
    obtain ⟨r, hr, hactive⟩ := attended.holds
    refine ⟨hok, ⟨fun _ => .inr rfl, fun _ => hactive (hvalid r hr)⟩, nofun⟩
  | false =>
    obtain ⟨_, hok, same⟩ := (leads_installed_of_not_usable (E := fun _ => False)
      husable).exists_ok rfl
    rw [hv] at same
    refine ⟨hok, by rw [same]; simp, fun _ => ?_⟩
    have entry := installed_settled s l success w y.filetype
    have hc : y.filetype ∈ concerned s l success w :=
      List.mem_append_left _ (List.mem_map_of_mem hy)
    rw [hv, havailable, if_pos hc, husable] at entry
    obtain ⟨a, ha, hsettle⟩ := Option.map_eq_some_iff.mp entry.symm
    rw [ha]
    cases a with
    | available => rfl
    | _ => cases hsettle

/-- Lua is being installed for the first document when its grammar turns up, and a second document
is started with it. -/
def passing : List (Step (List String)) :=
  [.call true (.attach (some (.number 1)) (some "lua")), .meanwhile fun _ => ["lua"],
    .call true (.attach (some (.number 2)) (some "lua"))]

/-- If the install ends well now, the first document is started too. -/
theorem waiter_started_iff_passing :
    let w := run slowEditor passing slowWorld
    let v := ((installed slowEditor "lua" true).run w).2
    ⟨.number 1, "lua"⟩ ∈ w.state.waitersOf "lua" ∧
      Assoc.get? v.state.registry "lua" = some .available ∧ v.state.autoAttach = true ∧
      v.state.features.isActive (.number 1) = true := by
  intro w v
  have reached : Reached slowEditor w := (Reached.start ⟨rfl, rfl⟩).run passing
  have waits : ⟨.number 1, "lua"⟩ ∈ w.state.waitersOf "lua" := by decide +kernel
  have available : Assoc.get? v.state.registry "lua" = some .available := by decide +kernel
  have auto : v.state.autoAttach = true := by decide +kernel
  have valid : ∀ r, .answered (.isValid (.number 1)) r ∈ extend slowEditor [] w v →
      r = .ok true := by
    intro r hr
    rw [extend, List.append_nil] at hr
    obtain ⟨_, he⟩ := answered_of_mem_replay _ hr
    exact he.symm
  have usable : findsUsable slowEditor "lua" true w = true := by decide +kernel
  exact ⟨waits, available, auto,
    (waiter_started_iff reached waits rfl available auto valid).2.1.mpr (.inr usable)⟩

/-- If the installer reports failure instead, the first document is passed over, though its filetype
is available and the editor still has it. -/
theorem waiter_passed_over :
    let w := run slowEditor (passing ++ [.work (.task 0), .answer 0]) slowWorld
    let v := exec slowEditor (.work (.task 0)) w
    Initial slowWorld ∧ NoCancel (passing ++ [.work (.task 0), .answer 0]) ∧
      ⟨.number 1, "lua"⟩ ∈ w.state.waitersOf "lua" ∧
      v.state.loop.tasks = [{ languages := ["lua"], phase := .finished false }] ∧
      Assoc.get? v.state.registry "lua" = some .available ∧ v.state.autoAttach = true ∧
      (∀ x, (slowEditor.reply (.isValid (.number 1)) x).1 = .ok true) ∧
      v.state.features.isActive (.number 1) = false := by
  refine ⟨⟨rfl, rfl⟩, fun id => by simp [passing], ?_, ?_, ?_, ?_, fun _ => rfl, ?_⟩ <;>
    decide +kernel

end TreeFeatures.Enablement
