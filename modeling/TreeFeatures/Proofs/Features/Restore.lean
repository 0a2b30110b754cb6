import Mathlib.Logic.Function.Basic
import TreeFeatures.Proofs.Footprint

/-!
# Stopping puts back what starting overrode

Features of any number of documents are started and stopped in any order, and between two moves
the surroundings may change as they like: the user sets options, a document gets another view. The
options of the surroundings behave as a store (`Store`).

* `Ledger` is the history of a document seen from outside: for each option that its starts wrote
  since its last stop, the value that the option had just before the first of these writes.
* `Tracks` is the invariant: the records of a document are proper, and what they have saved is its
  ledger. `Progress` is the invariant inside of one start.
* `run_override` and `leads_restoreAll` say what writing and putting back do to the options.
* `stop_restores`: after any moves, stopping a document puts exactly the options of its ledger back
  to the values there, and stopping it again writes nothing.
-/

namespace TreeFeatures

open Act

/-! ## Options -/

/-- The option that a call writes. -/
def Call.written? : Call → Option Slot
  | .setOption scope handle name _ => some ⟨scope, handle, name⟩
  | _ => none

/-- The option that was written when something happened. -/
def Event.written? : Event → Option Slot
  | .asked c => c.written?
  | _ => none

variable {σ : Type} {s : Surroundings σ} {value : σ → Slot → Value}

/-- The options written on the way from one world to a later one, newest first. -/
def written (w v : World σ) : List Slot :=
  (news w v).filterMap Event.written?

/-- Surroundings whose options behave as a store: they can be read and written, and only a write
changes them, and only its own option. Other calls may fail. -/
structure Store (s : Surroundings σ) (value : σ → Slot → Value) : Prop where
  read : ∀ (o : Slot) x, (s.reply (.getOption o.scope o.handle o.name) x).1 = .ok (value x o)
  accept : ∀ (o : Slot) v x, (s.reply (.setOption o.scope o.handle o.name v) x).1 = .ok ()
  write : ∀ (o : Slot) v x, value (s.reply (.setOption o.scope o.handle o.name v) x).2 =
    Function.update (value x) o v
  other : ∀ c x, c.written? = none → value (s.reply c x).2 = value x

@[simp] theorem written_self (w : World σ) : written w w = [] := by
  rw [written, news_self, List.filterMap_nil]

theorem written_cons {w v v' : World σ} {e : Event} (h : w.trace <:+ v.trace)
    (hv : v'.trace = e :: v.trace) : written w v' = e.written?.toList ++ written w v := by
  rw [written, news_cons h hv, List.filterMap_cons]
  cases e.written? <;> rfl

theorem written_append {w v u : World σ} (h : w.trace <:+ v.trace) (h' : v.trace <:+ u.trace) :
    written w u = written v u ++ written w v := by
  rw [written, news_append h h', List.filterMap_append]
  rfl

/-- Calls about highlighting, queries and views write no option. -/
theorem Call.written?_of_area {c : Call} (h : c.area ∈ [Area.features]) : c.written? = none := by
  cases c <;> first | rfl | exact absurd h (by simp [Call.area])

/-! ## Moves and the ledger -/

/-- Something that can happen to the features of documents. -/
inductive Move (σ : Type) where
  | start (document : Handle) (language : String) (flags : Flags)
  | stop (document : Handle)
  /-- The surroundings change: the user sets options, a document gets another view. -/
  | meanwhile (f : σ → σ)

/-- The world after a move. -/
def play (s : Surroundings σ) : Move σ → World σ → World σ
  | .start document language flags, w => ((Features.start s document language flags).run w).2
  | .stop document, w => ((Features.stop s document).run w).2
  | .meanwhile f, w => { w with outside := f w.outside }

/-- The world after several moves. -/
def playAll (s : Surroundings σ) (moves : List (Move σ)) (w : World σ) : World σ :=
  moves.foldl (fun w m => play s m w) w

/-- For the options that a document wrote since its last stop, the value that each of them had just
before the first of these writes. -/
abbrev Ledger := Slot → Option Value

/-- The ledger after a start of its document. Nobody else writes while a start is at work, so an
option that enters had until its first write the value from before the start (`Progress.value`). -/
def Ledger.enter (value : σ → Slot → Value) (l : Ledger) (w v : World σ) : Ledger := fun o =>
  (l o).or (if o ∈ written w v then some (value w.outside o) else none)

/-- The ledger of a document after a move from a world. -/
def Ledger.follow (s : Surroundings σ) (value : σ → Slot → Value) (document : Handle) (l : Ledger)
    (w : World σ) : Move σ → Ledger
  | .start d language flags =>
    if d = document then l.enter value w (play s (.start d language flags) w) else l
  | .stop d => if d = document then fun _ => none else l
  | .meanwhile _ => l

/-- The ledger of a document after several moves from a world, where it was the given one. -/
def ledger (s : Surroundings σ) (value : σ → Slot → Value) (document : Handle) :
    List (Move σ) → World σ → Ledger → Ledger
  | [], _, l => l
  | m :: moves, w, l => ledger s value document moves (play s m w) (l.follow s value document w m)

/-! ## Writing and putting back -/

namespace Features

/-- Writing a target: nothing if it is there already, else a write that keeps the value found. -/
theorem run_apply (hs : Store s value) (o : Slot) {r : Override} (hn : r.name = o.name)
    (hc : r.scope = o.scope) (w : World σ) :
    (r.apply s o.handle).run w =
      let w' := afterCall s (.getOption o.scope o.handle o.name) w
      if (value w.outside o).same r.target then (.ok (r, .ok false), w')
      else
        (.ok (r.capture o.handle (value w.outside o), .ok true),
          afterCall s (.setOption o.scope o.handle o.name r.target) w') := by
  have found : (attempt (ask s (.getOption o.scope o.handle o.name))).run w =
      (.ok (.ok (value w.outside o)), afterCall s (.getOption o.scope o.handle o.name) w) := by
    rw [run_attempt, run_ask, hs.read]
  unfold Override.apply
  rw [hn, hc, run_bind_of_ok _ found]
  dsimp only
  split
  · rfl
  · have wrote : ∀ w' : World σ,
        (attempt (ask s (.setOption o.scope o.handle o.name r.target))).run w' =
          (.ok (.ok ()), afterCall s (.setOption o.scope o.handle o.name r.target) w') := by
      intro w'
      rw [run_attempt, run_ask, hs.accept]
    rw [run_bind_of_ok _ (wrote _)]
    rfl

/-- Overriding an option files its record. The target is there already and nothing is written, or
the target is written and the record keeps the value found. -/
theorem run_override (hs : Store s value) {document : Handle} {w : World σ}
    (ht : (w.state.features.overrides document).Proper) {o : Slot} (ho : o.scope = scopeOf o.name)
    (target : String) :
    ∃ v, (override s document o.name o.scope target o.handle).run w = (.ok (), v) ∧
      w.trace <:+ v.trace ∧
      let t := w.state.features.overrides document
      let r := t.record o.name o.scope (.text target) o.handle
      ((value w.outside o).same (.text target) = true ∧
          v.state.features.overrides document = Assoc.put t (o.name, o.handle) r ∧
          written w v = [] ∧ value v.outside = value w.outside) ∨
        ((value w.outside o).same (.text target) = false ∧
          v.state.features.overrides document =
            Assoc.put t (o.name, o.handle) (r.capture o.handle (value w.outside o)) ∧
          written w v = [o] ∧
          value v.outside = Function.update (value w.outside) o (.text target)) := by
  let t := w.state.features.overrides document
  let r := t.record o.name o.scope (.text target) o.handle
  have hr : r.Filed (o.name, o.handle) := ht.filed_record ho (.text target)
  have applied := run_apply hs o hr.name (hr.scope.trans ho.symm) w
  let get : Call := .getOption o.scope o.handle o.name
  have hread := hs.other get w.outside rfl
  unfold override
  rw [run_bind_of_ok _ (run_state w)]
  dsimp only at applied ⊢
  rw [OverrideTable.target_record] at applied
  by_cases hsame : (value w.outside o).same (.text target) = true
  · rw [if_pos hsame] at applied
    rw [run_bind_of_ok _ applied]
    refine ⟨_, rfl, ?_, .inl ⟨hsame, ?_, ?_, ?_⟩⟩
    · exact List.suffix_cons _ _
    · exact overrides_setOverrides_self _ _ _
    · rw [written_cons (w := w) (v := w) (e := .asked get) List.suffix_rfl rfl, written_self]
      rfl
    · exact hread
  · rw [if_neg hsame] at applied
    rw [run_bind_of_ok _ applied]
    refine ⟨_, rfl, ?_, .inr ⟨by simpa using hsame, ?_, ?_, ?_⟩⟩
    · exact (List.suffix_cons _ _).trans (List.suffix_cons _ _)
    · exact overrides_setOverrides_self _ _ _
    · rw [written_cons (v := afterCall s get w) (e := .asked (.setOption o.scope o.handle o.name _))
          (List.suffix_cons _ _) rfl,
        written_cons (w := w) (v := w) (e := .asked get) List.suffix_rfl rfl, written_self]
      rfl
    · rw [← hread]
      exact hs.write o _ _

/-! ## Starting -/

/-- How far a start of a document has come since a world: what its records have saved is what they
had saved then, or else the value of then if the option was written since; and all options that
were not written have the value of then. -/
structure Progress (value : σ → Slot → Value) (document : Handle) (w v : World σ) : Prop where
  trace : w.trace <:+ v.trace
  proper : (v.state.features.overrides document).Proper
  saved : ∀ o, (v.state.features.overrides document).saved? o =
    ((w.state.features.overrides document).saved? o).or
      (if o ∈ written w v then some (value w.outside o) else none)
  value : ∀ o, o ∉ written w v → value v.outside o = value w.outside o

theorem Progress.refl {document : Handle} {w : World σ}
    (h : (w.state.features.overrides document).Proper) : Progress value document w w :=
  ⟨List.suffix_rfl, h, fun o => by simp, fun _ _ => rfl⟩

theorem Progress.blind (hs : Store s value) (document : Handle) (w : World σ) :
    Blind s [] [.features] (Progress value document w) := by
  refine ⟨fun v l h => ⟨h.trace, h.proper, h.saved, h.value⟩, by simp, fun c hc v h => ?_⟩
  have hnone := Call.written?_of_area hc
  have hwritten : written w (afterCall s c v) = written w v := by
    rw [written_cons h.trace (e := .asked c) rfl, Event.written?, hnone]
    rfl
  refine ⟨h.trace.trans (List.suffix_cons _ _), h.proper, ?_, ?_⟩
  · rw [hwritten]
    exact h.saved
  · rw [hwritten]
    intro o ho
    rw [← h.value o ho]
    exact congrFun (hs.other c v.outside hnone) o

/-- Each option that a start overrides is progress. -/
theorem Progress.keeps_override (hs : Store s value) (document : Handle) (w : World σ) {o : Slot}
    (ho : o.scope = scopeOf o.name) (target : String) :
    Keeps (Progress value document w) (override s document o.name o.scope target o.handle) := by
  intro u h
  obtain ⟨v, hrun, htrace, hcase⟩ := run_override hs h.proper ho target
  rw [hrun]
  let t := u.state.features.overrides document
  let r := t.record o.name o.scope (.text target) o.handle
  have hr : r.Filed (o.name, o.handle) := h.proper.filed_record ho (.text target)
  have hsaved : r.saved.map Prod.snd = t.saved? o := h.proper.saved_record ho (.text target)
  have hwritten := written_append h.trace htrace
  rcases hcase with ⟨-, hput, hnone, hvalue⟩ | ⟨-, hput, hone, hvalue⟩
  · rw [hnone, List.nil_append] at hwritten
    refine ⟨h.trace.trans htrace, hput ▸ h.proper.put hr, fun o' => ?_, fun o' ho' => ?_⟩
    · rw [hwritten, ← h.saved, hput, h.proper.saved?_put ho hr]
      split
      · next e => rw [hsaved, e]
      · rfl
    · rw [hvalue]
      exact h.value o' (hwritten ▸ ho')
  · rw [hone] at hwritten
    refine ⟨h.trace.trans htrace, hput ▸ h.proper.put (hr.capture _), fun o' => ?_, fun o' ho' => ?_⟩
    · rw [hput, h.proper.saved?_put ho (hr.capture _), hwritten]
      split
      · -- the value found is the one of then, unless the option was written since
        next e =>
        subst e
        have hmem : o' ∈ [o'] ++ written w u := List.mem_cons_self
        rw [OverrideTable.saved_capture, hsaved, h.saved, if_pos hmem]
        by_cases hm : o' ∈ written w u
        · rw [if_pos hm, Option.or_assoc, Option.some_or]
        · rw [if_neg hm, Option.or_none, h.value o' hm]
      · next e =>
        rw [h.saved]
        simp [e]
    · have ho' : ¬ o' = o ∧ o' ∉ written w u := by simpa [hwritten] using ho'
      rw [hvalue, Function.update_of_ne ho'.1]
      exact h.value o' ho'.2

theorem Progress.start (hs : Store s value) (document : Handle) (language : String) (flags : Flags)
    {w : World σ} (h : (w.state.features.overrides document).Proper) :
    Progress value document w ((start s document language flags).run w).2 := by
  refine keeps_start_by (Progress.blind hs document w) document ?_ ?_ ?_ language flags w
    (Progress.refl h)
  · intro v hv
    have same := overrides_activate v.state.features document document
    exact ⟨hv.trace, same ▸ hv.proper, fun o => same ▸ hv.saved o, hv.value⟩
  · intro name hname target view
    refine Progress.keeps_override hs document w (o := ⟨.view, view, name⟩) ?_ target
    rcases List.mem_cons.mp hname with rfl | hname
    · rfl
    · rw [List.mem_singleton.mp hname]
      rfl
  · intro target
    exact Progress.keeps_override hs document w (o := ⟨.document, document, "indentexpr"⟩) rfl target

/-! ## Stopping -/

/-- The options after a record was put back. -/
def putBack (r : Override) (v : Slot → Value) : Slot → Value :=
  match r.saved with
  | some (handle, prior) => Function.update v ⟨r.scope, handle, r.name⟩ prior
  | none => v

theorem leads_restore (hs : Store s value) (document : Handle) (r : Override) (st : State)
    (v : Slot → Value) {E : World σ → Prop} :
    Leads (fun w => w.state = st ∧ value w.outside = v) (restore s document r)
      (fun _ w => w.state = st ∧ value w.outside = putBack r v) E := by
  intro w hw
  unfold restore Override.revert putBack
  cases r.saved with
  | none => exact hw
  | some x =>
    have wrote : (attempt (ask s (.setOption r.scope x.1 r.name x.2))).run w =
        (.ok (.ok ()), afterCall s (.setOption r.scope x.1 r.name x.2) w) := by
      rw [run_attempt, run_ask, hs.accept ⟨r.scope, x.1, r.name⟩]
    dsimp only
    rw [bind_assoc, run_bind_of_ok _ wrote, ← hw.2]
    exact ⟨hw.1, hs.write ⟨r.scope, x.1, r.name⟩ _ _⟩

/-- Putting back the records of a table puts back what it has saved. -/
theorem leads_restoreAll (hs : Store s value) (document : Handle) {t : OverrideTable}
    (ht : t.Proper) (st : State) (v : Slot → Value) {E : World σ → Prop} :
    Leads (fun w => w.state = st ∧ value w.outside = v) (t.forM fun e => restore s document e.2)
      (fun _ w => w.state = st ∧ value w.outside = fun o => (t.saved? o).getD (v o)) E := by
  induction t generalizing v with
  | nil => exact leads_pure fun w hw => hw
  | cons e rest ih =>
    obtain ⟨k, r⟩ := e
    obtain ⟨hr, -, hrest⟩ := ht.cons
    refine (leads_restore hs document r st v).bind fun _ => (ih hrest _).weaken fun _ w hw => ?_
    refine ⟨hw.1, hw.2.trans (funext fun o => ?_)⟩
    rw [ht.saved?_cons, putBack]
    by_cases ho : o = .ofKey k
    · -- no later record touches the option
      rw [if_pos ho, ho, ht.saved?_ofKey]
      cases hsaved : r.saved with
      | none => simp
      | some x => simp [hr.slot hsaved]
    · rw [if_neg ho]
      cases hsaved : r.saved with
      | none => rfl
      | some x => simp [hr.slot hsaved, Function.update_of_ne ho]

/-- Stopping a document forgets it and puts back what its records have saved. -/
theorem leads_stop (hs : Store s value) (document : Handle) {w : World σ}
    (ht : (w.state.features.overrides document).Proper) {E : World σ → Prop} :
    Leads (fun u => u = w) (stop s document)
      (fun _ v => v.state = { w.state with features := w.state.features.drop document } ∧
        value v.outside = fun o =>
          ((w.state.features.overrides document).saved? o).getD (value w.outside o)) E := by
  have forgot : Blind s [] [.features] fun v =>
      v.state = { w.state with features := w.state.features.drop document } ∧
        value v.outside = value w.outside := by
    refine ⟨fun _ _ h => h, by simp, fun c hc v h => ⟨h.1, ?_⟩⟩
    exact (hs.other c v.outside (Call.written?_of_area hc)).trans h.2
  refine leads_stop_by forgot document ⟨rfl, rfl⟩ (fun _ => leads_restoreAll hs document ht _ _)
    (fun hidle v hv => ?_) fun _ _ h => h
  rw [overrides_of_not_isActive hidle]
  exact hv

/-- Stopping a document that shows no features writes no option. -/
theorem written_stop_of_not_isActive {document : Handle} {w : World σ}
    (h : w.state.features.isActive document = false) :
    written w ((stop s document).run w).2 = [] := by
  have silent : Blind s [] [.features] fun v => w.trace <:+ v.trace ∧ written w v = [] := by
    refine ⟨fun _ _ h => h, by simp, fun c hc v h => ⟨h.1.trans (List.suffix_cons _ _), ?_⟩⟩
    rw [written_cons h.1 (e := .asked c) rfl, h.2, Event.written?, Call.written?_of_area hc]
    rfl
  have stopped : w.trace <:+ ((stop s document).run w).2.trace ∧
      written w ((stop s document).run w).2 = [] := by
    refine (leads_stop_by silent document ⟨List.suffix_rfl, written_self w⟩ (fun hactive => ?_)
      (fun _ _ hv => hv) fun _ _ hv => hv).run rfl
    rw [h] at hactive
    cases hactive
  exact stopped.2

/-! ## The ledger is what the records have saved -/

/-- What the records of a document have saved is its ledger. -/
structure Tracks (document : Handle) (l : Ledger) (w : World σ) : Prop where
  proper : (w.state.features.overrides document).Proper
  saved : ∀ o, (w.state.features.overrides document).saved? o = l o

theorem Tracks.of_overrides {document : Handle} {l : Ledger} {w v : World σ}
    (h : Tracks document l w)
    (hv : v.state.features.overrides document = w.state.features.overrides document) :
    Tracks document l v :=
  ⟨hv ▸ h.proper, hv ▸ h.saved⟩

/-- The features after a stop, and the options if the records of the document are proper. -/
theorem play_stop (hs : Store s value) {document : Handle} {w : World σ}
    (ht : (w.state.features.overrides document).Proper) :
    (play s (.stop document) w).state.features = w.state.features.drop document ∧
      value (play s (.stop document) w).outside = fun o =>
        ((w.state.features.overrides document).saved? o).getD (value w.outside o) := by
  obtain ⟨_, -, hstate, hvalue⟩ := (leads_stop hs document ht (E := fun _ => False)).exists_ok rfl
  exact ⟨congrArg State.features hstate, hvalue⟩

/-- Each move changes ledger and records alike. -/
theorem Tracks.play (hs : Store s value) {document : Handle} {l : Ledger} {w : World σ}
    (h : Tracks document l w) (m : Move σ) :
    Tracks document (l.follow s value document w m) (play s m w) := by
  cases m with
  | start d language flags =>
    by_cases e : d = document
    · subst e
      have progress := Progress.start hs d language flags h.proper
      refine ⟨progress.proper, fun o => ?_⟩
      rw [Ledger.follow, if_pos rfl, Ledger.enter, ← h.saved]
      exact progress.saved o
    · rw [Ledger.follow, if_neg e]
      refine h.of_overrides (keeps_start_of (I := fun v => v.state.features.overrides document =
        w.state.features.overrides document) ?_ d (fun v t hv => ?_) language flags w rfl)
      · exact ⟨fun _ _ h => h, by simp, fun _ _ _ h => h⟩
      · exact (overrides_setOverrides_of_ne _ t e).trans hv
  | stop d =>
    by_cases e : d = document
    · subst e
      have forgot : (TreeFeatures.play s (.stop d) w).state.features.overrides d = [] := by
        rw [(play_stop hs h.proper).1, overrides_drop_self]
      refine ⟨forgot ▸ OverrideTable.proper_nil, fun o => ?_⟩
      rw [Ledger.follow, if_pos rfl, forgot]
      rfl
    · rw [Ledger.follow, if_neg e]
      refine h.of_overrides (keeps_stop_of (I := fun v => v.state.features.overrides document =
        w.state.features.overrides document) ?_ d (fun v hv => ?_) w rfl)
      · exact ⟨fun _ _ h => h, by simp, fun _ _ _ h => h⟩
      · exact (overrides_drop_of_ne _ e).trans hv
  | meanwhile f => exact h.of_overrides rfl

theorem Tracks.playAll (hs : Store s value) {document : Handle} {l : Ledger} {w : World σ}
    (h : Tracks document l w) (moves : List (Move σ)) :
    Tracks document (ledger s value document moves w l) (playAll s moves w) := by
  induction moves generalizing l w with
  | nil => exact h
  | cons m rest ih => exact ih (h.play hs m)

/-- A document that is not started stays without features. -/
theorem isActive_playAll {document : Handle} {moves : List (Move σ)}
    (hm : ∀ language flags, .start document language flags ∉ moves) {w : World σ}
    (h : w.state.features.isActive document = false) :
    (playAll s moves w).state.features.isActive document = false := by
  induction moves generalizing w with
  | nil => exact h
  | cons m rest ih =>
    refine ih (fun language flags hr => hm language flags (List.mem_cons_of_mem m hr)) ?_
    let Idle (v : World σ) : Prop := v.state.features.isActive document = false
    have idle : Blind s [] [.features, .options] Idle :=
      ⟨fun _ _ h => h, by simp, fun _ _ _ h => h⟩
    cases m with
    | start d language flags =>
      have e : d ≠ document := fun e => hm language flags (e ▸ List.mem_cons_self)
      refine keeps_start_of idle d (fun v t hv => ?_) language flags w h
      exact (isActive_setOverrides_of_ne _ t e).trans hv
    | stop d =>
      refine keeps_stop_of idle d (fun v hv => ?_) w h
      by_cases e : d = document
      · exact e ▸ isActive_drop_self _ d
      · exact (isActive_drop_of_ne _ e).trans hv
    | meanwhile f => exact h

/-- **Stopping restores exactly what was overridden.** After any starts and stops of any documents
and any changes of the surroundings in between, stopping a document succeeds, puts each option of
its ledger back to the value there and leaves every other option as it is; the document shows no
features then; and until it is started again, stopping it writes no option. -/
theorem stop_restores (hs : Store s value) {w : World σ}
    (hw : w.state.features.documents = []) (moves : List (Move σ)) (document : Handle)
    {v v' : World σ} (hv : v = playAll s moves w) (hv' : v' = play s (.stop document) v) :
    ((stop s document).run v).1 = .ok () ∧
      (∀ o, value v'.outside o =
        (ledger s value document moves w (fun _ => none) o).getD (value v.outside o)) ∧
      v'.state.features.isActive document = false ∧
      v'.state.features.overrides document = [] ∧
      ∀ later : List (Move σ), (∀ language flags, .start document language flags ∉ later) →
        ∀ u, u = playAll s later v' → written u (play s (.stop document) u) = [] := by
  have empty : w.state.features.overrides document = [] := by rw [overrides, hw]; rfl
  have initial : Tracks document (fun _ => none) w :=
    ⟨empty ▸ OverrideTable.proper_nil, fun o => by rw [empty]; rfl⟩
  have tracks : Tracks document (ledger s value document moves w fun _ => none) v :=
    hv ▸ initial.playAll hs moves
  obtain ⟨hfeatures, hvalue⟩ := play_stop hs tracks.proper
  rw [← hv'] at hfeatures hvalue
  have idle : v'.state.features.isActive document = false := by
    rw [hfeatures, isActive_drop_self]
  refine ⟨?_, fun o => ?_, idle, overrides_of_not_isActive idle, fun later hlater u hu => ?_⟩
  · obtain ⟨_, hok, -⟩ := (leads_stop hs document tracks.proper (E := fun _ => False)).exists_ok rfl
    exact hok
  · rw [← tracks.saved, hvalue]
  · exact written_stop_of_not_isActive (hu ▸ isActive_playAll hlater idle)

/-- An editor with nothing but options, which presents all documents in one view. -/
def plainEditor : Surroundings (Slot → Value) where
  reply
    | .getOption scope handle name, x => (.ok (x ⟨scope, handle, name⟩), x)
    | .setOption scope handle name v, x => (.ok (), Function.update x ⟨scope, handle, name⟩ v)
    | .query _ name, x => (.ok (.text name), x)
    | .viewOf _, x => (.ok (.number 10), x)
    | .isHighlighting _, x => (.ok false, x)
    | c, x => (Surroundings.outOfReach (Slot → Value)).reply c x
  machine _ := .empty

theorem plainEditor_store : Store plainEditor id where
  read _ _ := rfl
  accept _ _ _ := rfl
  write _ _ _ := rfl
  other c x h := by cases c <;> first | rfl | exact absurd h (by simp [Call.written?])

/-- All options have the value of the user. -/
def plainWorld : World (Slot → Value) := .fresh (fun _ => .text "user") {}

/-- The start of a document of the plain editor that only indents writes one option. -/
theorem written_start_plain (document : Handle) (language : String) :
    written plainWorld
        (play plainEditor (.start document language ⟨true, false, false, true⟩) plainWorld) =
      [⟨.document, document, "indentexpr"⟩] := by
  let asked := afterCall plainEditor (.query language "indents")
    (plainWorld.onFeatures fun f => f.activate document)
  have empty : asked.state.features.overrides document = [] := overrides_setOverrides_self _ _ _
  obtain ⟨v, hrun, htrace, ⟨hsame, -⟩ | ⟨-, -, hone, -⟩⟩ := run_override plainEditor_store
    (o := ⟨.document, document, "indentexpr"⟩) (empty ▸ OverrideTable.proper_nil) rfl
    asked.state.features.targets.indentExpr
  · have differs : Value.same (.text "user") (.text ({} : Targets).indentExpr) = false := by cbv
    exact absurd (hsame.symm.trans differs) (by simp)
  · have shown : (showIndents plainEditor document language).run asked = (.ok (), v) := by
      rw [showIndents, shielded, run_of, run_bind_of_ok _ (run_state asked), hrun]
    have started : (start plainEditor document language ⟨true, false, false, true⟩).run plainWorld =
        (noteStarted document language).run v := by
      show ((showIndents plainEditor document language >>= fun _ => _).run asked) = _
      exact run_bind_of_ok _ shown
    have hwritten := written_append (w := plainWorld) (v := asked) (u := v) ⟨[_], rfl⟩ htrace
    rw [play, started]
    exact hwritten.trans (by rw [hone]; rfl)

/-- The document is started, and the user changes the option that was overridden: stopping goes
back to the value from before the start. -/
theorem stop_restores_changed :
    let document : Handle := .number 1
    let o : Slot := ⟨.document, document, "indentexpr"⟩
    let moves : List (Move (Slot → Value)) :=
      [.start document "lua" ⟨true, false, false, true⟩,
        .meanwhile fun x => Function.update x o (.text "changed")]
    let v := playAll plainEditor moves plainWorld
    v.outside o = .text "changed" ∧
      (play plainEditor (.stop document) v).outside o = .text "user" := by
  intro document o moves v
  obtain ⟨-, h, -⟩ := stop_restores plainEditor_store (w := plainWorld) rfl moves document
    (v := v) rfl rfl
  have changed : v.outside o = .text "changed" := by
    let started := play plainEditor (.start document "lua" ⟨true, false, false, true⟩) plainWorld
    exact Function.update_self (f := started.outside) o (.text "changed")
  have entered : ledger plainEditor id document moves plainWorld (fun _ => none) o =
      some (.text "user") := by
    show (if o ∈ written plainWorld _ then some (Value.text "user") else none) = _
    rw [written_start_plain, if_pos List.mem_cons_self]
  exact ⟨changed, (h o).trans (by rw [entered, Option.getD_some])⟩

end Features

end TreeFeatures
