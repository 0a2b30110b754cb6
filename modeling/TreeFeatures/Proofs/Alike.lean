import TreeFeatures.Proofs.Enablement.Plan

/-!
# Actions that run alike

Two runs can be compared without following either of them. `Together P a b Q`: from worlds that `P`
relates, two actions end with the same result or fault, and the worlds after them are related by
`Q`. There is a rule for each way of building an action. Where the actions part, each may go its own
way as long as it does not leave the relation (`together_apart`).

`Alike R a` is the same for two runs of one action and one relation; an action that looks at the
state may go on alike if what it looks at is the same in related worlds (`alike_state`).

`Twins` are relations that make two worlds look the same to whoever shows the features of a
document. Showing them runs alike in twin worlds (`Features.alike_start`), and so does starting a
document of an available filetype (`Enablement.leads_startAvailable_alike`).
-/

namespace TreeFeatures

namespace Act

variable {σ τ α β : Type}

/-! ## Two actions next to each other -/

/-- From related worlds, two actions end with the same result or fault, and the worlds after them
are related in a way that may depend on it. The worlds of the two may have different
surroundings. -/
def Together (P : World σ → World τ → Prop) (a : Act σ α) (b : Act τ α)
    (Q : Except Fault α → World σ → World τ → Prop) : Prop :=
  ∀ w v, P w v → (a.run w).1 = (b.run v).1 ∧ Q (a.run w).1 (a.run w).2 (b.run v).2

section Together

variable {P : World σ → World τ → Prop} {Q : Except Fault α → World σ → World τ → Prop}

theorem together_pure {x : α} (h : ∀ w v, P w v → Q (.ok x) w v) :
    Together P (pure x) (pure x) Q := fun w v hwv => ⟨rfl, h w v hwv⟩

theorem together_fail {f : Fault} (h : ∀ w v, P w v → Q (.error f) w v) :
    Together P (fail f) (fail f) Q := fun w v hwv => ⟨rfl, h w v hwv⟩

theorem Together.bind {a : Act σ α} {b : Act τ α} {f : α → Act σ β} {g : α → Act τ β}
    {R : Except Fault β → World σ → World τ → Prop} (hab : Together P a b Q)
    (hfg : ∀ x, Together (Q (.ok x)) (f x) (g x) R)
    (hfault : ∀ e w v, Q (.error e) w v → R (.error e) w v) :
    Together P (a >>= f) (b >>= g) R := by
  intro w v h
  have hwv := hab w v h
  rw [run_bind, run_bind]
  rcases hw : a.run w with ⟨r, w'⟩
  rcases hv : b.run v with ⟨r', v'⟩
  rw [hw, hv] at hwv
  obtain ⟨rfl, h'⟩ := hwv
  cases r with
  | error e => exact ⟨rfl, hfault e w' v' h'⟩
  | ok x => exact hfg x w' v' h'

/-- Two given worlds are related. -/
theorem Together.at {a : Act σ α} {b : Act τ α} (h : Together P a b Q) {w : World σ} {v : World τ}
    (hwv : P w v) : Together (fun w' v' => w' = w ∧ v' = v) a b Q := by
  rintro _ _ ⟨rfl, rfl⟩
  exact h _ _ hwv

/-- The states are looked at, each by its own action. -/
theorem together_state {f : State → Act σ α} {g : State → Act τ α}
    (h : ∀ w v, P w v → Together (fun w' v' => w' = w ∧ v' = v) (f w.state) (g v.state) Q) :
    Together P (state >>= f) (state >>= g) Q := by
  intro w v hwv
  rw [run_bind_of_ok f (run_state w), run_bind_of_ok g (run_state v)]
  exact h w v hwv w v ⟨rfl, rfl⟩

theorem together_update {f g : State → State} {R : World σ → World τ → Prop}
    (h : ∀ w v, P w v → R { w with state := f w.state } { v with state := g v.state }) :
    Together P (update f) (update g) fun _ => R := fun w v hwv => ⟨rfl, h w v hwv⟩

theorem together_ask {s : Surroundings σ} {s' : Surroundings τ} {c : Call}
    {Q : Except Fault c.Reply → World σ → World τ → Prop}
    (h : ∀ w v, P w v → (s.reply c w.outside).1 = (s'.reply c v.outside).1 ∧
      Q (s.reply c w.outside).1 (afterCall s c w) (afterCall s' c v)) :
    Together P (ask s c) (ask s' c) Q := h

theorem Together.attempt {a : Act σ α} {b : Act τ α}
    {R : Except Fault (Except Fault α) → World σ → World τ → Prop} (h : Together P a b Q)
    (hR : ∀ r w v, Q r w v → R (.ok r) w v) : Together P (Act.attempt a) (Act.attempt b) R := by
  intro w v hwv
  rw [run_attempt, run_attempt]
  exact ⟨congrArg Except.ok (h w v hwv).1, hR _ _ _ (h w v hwv).2⟩

theorem Together.ite {c : Prop} [Decidable c] {a a' : Act σ α} {b b' : Act τ α}
    (h : Together P a b Q) (h' : Together P a' b' Q) :
    Together P (if c then a else a') (if c then b else b') Q := by
  by_cases hc : c
  · rw [if_pos hc, if_pos hc]
    exact h
  · rw [if_neg hc, if_neg hc]
    exact h'

theorem together_note {level : Level} {channel : Channel} {text : String}
    {R : World σ → World τ → Prop}
    (hlog : ∀ w v k l, P w v → R { w with log := k } { v with log := l }) :
    Together P (note level channel text) (note level channel text) fun _ => R :=
  fun w v h => ⟨rfl, hlog w v _ _ h⟩

theorem together_emit {e : Event} {R : World σ → World τ → Prop}
    (h : ∀ w v, P w v → R { w with trace := e :: w.trace } { v with trace := e :: v.trace }) :
    Together P (emit e) (emit e) fun _ => R := fun w v hwv => ⟨rfl, h w v hwv⟩

theorem Together.forM {f : α → Act σ Unit} {g : α → Act τ Unit} {xs : List α}
    (h : ∀ x ∈ xs, Together P (f x) (g x) fun _ => P) :
    Together P (xs.forM f) (xs.forM g) fun _ => P := by
  induction xs with
  | nil => exact together_pure fun _ _ => id
  | cons x rest ih =>
    exact (h x List.mem_cons_self).bind (fun _ => ih fun y hy => h y (List.mem_cons_of_mem x hy))
      fun _ _ _ => id

/-- Faults that end up in the log need not be the same. -/
theorem together_shielded {a : Act σ Unit} {b : Act τ Unit} {R : World σ → World τ → Prop}
    (h : ∀ w v, P w v → R (a.run w).2 (b.run v).2)
    (hlog : ∀ w v k l, R w v → R { w with log := k } { v with log := l }) {level : Level}
    {channel : Channel} {text : Fault → String} :
    Together P (Act.shielded a level channel text) (Act.shielded b level channel text)
      fun _ => R := by
  intro w v hwv
  have hrun := h w v hwv
  rw [Act.shielded, Act.shielded, run_of, run_of]
  rcases hw : a.run w with ⟨r, w'⟩
  rcases hv : b.run v with ⟨r', v'⟩
  rw [hw, hv] at hrun
  rcases r with f | _ <;> rcases r' with f' | _ <;> exact ⟨rfl, hlog w' v' _ _ hrun⟩

theorem Together.shielded {a : Act σ Unit} {b : Act τ Unit} {R : World σ → World τ → Prop}
    (h : Together P a b fun _ => R)
    (hlog : ∀ w v k l, R w v → R { w with log := k } { v with log := l }) {level : Level}
    {channel : Channel} {text : Fault → String} :
    Together P (Act.shielded a level channel text) (Act.shielded b level channel text)
      fun _ => R :=
  together_shielded (fun w v hwv => (h w v hwv).2) hlog

/-- Two actions that cannot fail may each go its own way, if neither leaves the relation. -/
theorem together_apart {a : Act σ Unit} {b : Act τ Unit}
    (ha : ∀ v, Leads (fun w => P w v) a (fun _ w => P w v) fun _ => False)
    (hb : ∀ w, Leads (fun v => P w v) b (fun _ v => P w v) fun _ => False) :
    Together P a b fun _ => P := by
  intro w v hwv
  obtain ⟨_, hw, hleft⟩ := (ha v).exists_ok hwv
  obtain ⟨_, hv, hboth⟩ := (hb (a.run w).2).exists_ok hleft
  exact ⟨hw.trans hv.symm, hboth⟩

end Together

/-! ## One action twice -/

/-- From related worlds, an action ends with the same result or fault, in related worlds. -/
def Alike (R : World σ → World σ → Prop) (a : Act σ α) : Prop :=
  ∀ w v, R w v → (a.run w).1 = (a.run v).1 ∧ R (a.run w).2 (a.run v).2

variable {R : World σ → World σ → Prop}

/-- An action that runs alike runs together with itself. -/
theorem alike_iff_together {a : Act σ α} : Alike R a ↔ Together R a a fun _ => R := Iff.rfl

/-- What an action does from one world, it does from every related one. -/
theorem Alike.leads {a : Act σ α} (h : Alike R a) (v : World σ) :
    Leads (fun w => R w v) a (fun _ w => R w (a.run v).2) fun w => R w (a.run v).2 :=
  leads_of_run fun w hw => (h w v hw).2

theorem alike_pure {x : α} : Alike R (pure x) := fun _ _ h => ⟨rfl, h⟩

theorem alike_fail {f : Fault} : Alike R (fail f : Act σ α) := fun _ _ h => ⟨rfl, h⟩

theorem Alike.bind {a : Act σ α} {f : α → Act σ β} (ha : Alike R a) (hf : ∀ x, Alike R (f x)) :
    Alike R (a >>= f) :=
  alike_iff_together.mpr <| (alike_iff_together.mp ha).bind
    (fun x => alike_iff_together.mp (hf x)) fun _ _ _ => id

/-- The state is looked at, and what matters of it is the same in related worlds. -/
theorem alike_state {f : State → Act σ β} (hsame : ∀ w v, R w v → f w.state = f v.state)
    (hf : ∀ st, Alike R (f st)) : Alike R (state >>= f) := by
  refine alike_iff_together.mpr (together_state fun w v h => ?_)
  rintro _ _ ⟨rfl, rfl⟩
  rw [hsame _ _ h]
  exact hf _ _ _ h

theorem alike_update {f : State → State}
    (h : ∀ w v, R w v → R { w with state := f w.state } { v with state := f v.state }) :
    Alike R (update f) := together_update h

theorem alike_emit {e : Event}
    (h : ∀ w v, R w v → R { w with trace := e :: w.trace } { v with trace := e :: v.trace }) :
    Alike R (emit e) := together_emit h

theorem alike_ask {s : Surroundings σ} {c : Call}
    (h : ∀ w v, R w v → (s.reply c w.outside).1 = (s.reply c v.outside).1 ∧
      R (afterCall s c w) (afterCall s c v)) : Alike R (ask s c) := h

theorem Alike.forM {f : α → Act σ Unit} {xs : List α} (h : ∀ x ∈ xs, Alike R (f x)) :
    Alike R (xs.forM f) := Together.forM h

/-- An action that cannot fail and leaves alone what is related runs alike. -/
theorem alike_apart {a : Act σ Unit} (hsymm : ∀ w v, R w v → R v w)
    (h : ∀ v, Leads (fun w => R w v) a (fun _ w => R w v) fun _ => False) : Alike R a :=
  together_apart h fun w => (h w).mono (hsymm w) (fun _ v => hsymm v w) fun _ h => h

theorem Alike.attempt {a : Act σ α} (h : Alike R a) : Alike R (Act.attempt a) :=
  alike_iff_together.mpr ((alike_iff_together.mp h).attempt fun _ _ _ => id)

theorem Alike.ite {c : Prop} [Decidable c] {a b : Act σ α} (ha : Alike R a) (hb : Alike R b) :
    Alike R (if c then a else b) :=
  Together.ite (Q := fun _ => R) ha hb

/-- The log does not matter to a relation. -/
def Unlogged (R : World σ → World σ → Prop) : Prop :=
  ∀ w v k l, R w v → R { w with log := k } { v with log := l }

theorem alike_note (hlog : Unlogged R) {level : Level} {channel : Channel} {text : String} :
    Alike R (note level channel text) := together_note hlog

theorem Alike.shielded {a : Act σ Unit} (h : Alike R a) (hlog : Unlogged R) {level : Level}
    {channel : Channel} {text : Fault → String} :
    Alike R (Act.shielded a level channel text) :=
  Together.shielded h hlog

end Act

open Act

variable {σ : Type} {s : Surroundings σ} {R : World σ → World σ → Prop}

/-- The calls by which the features of a document are shown. -/
def Call.Shows (document : Handle) : Call → Prop
  | query _ _ | getOption _ _ _ | setOption _ _ _ _ => True
  | startHighlighting d _ | viewOf d => d = document
  | _ => False

/-- Related worlds look the same to whoever shows the features of a document: the state of the
features is the same, and so are the answers of the editor. -/
structure Twins (s : Surroundings σ) (document : Handle) (R : World σ → World σ → Prop) :
    Prop where
  log : Unlogged R
  features : ∀ w v, R w v → w.state.features = v.state.features
  change : ∀ w v f, R w v → R (w.onFeatures f) (v.onFeatures f)
  ask : ∀ c : Call, c.Shows document → ∀ w v, R w v →
    (s.reply c w.outside).1 = (s.reply c v.outside).1 ∧ R (afterCall s c w) (afterCall s c v)

theorem Call.Shows.area {document : Handle} {c : Call} (h : c.Shows document) :
    c.area ∈ [Area.features, .options] := by
  cases c <;> first | exact h.elim | simp [Call.area]

/-- Twins stay twins if something is known of one of them that features cannot make false. -/
theorem Twins.and {document : Handle} {I : World σ → Prop} (h : Twins s document R)
    (hI : Blind s [] [.features, .options] I) (hfeatures : ∀ w f, I w → I (w.onFeatures f)) :
    Twins s document fun w v => R w v ∧ I w where
  log w v k l hwv := ⟨h.log w v k l hwv.1, hI.log w k hwv.2⟩
  features w v hwv := h.features w v hwv.1
  change w v f hwv := ⟨h.change w v f hwv.1, hfeatures w f hwv.2⟩
  ask c hc w v hwv :=
    have asked := h.ask c hc w v hwv.1
    ⟨asked.1, asked.2, hI.ask c hc.area w hwv.2⟩

namespace Features

variable {document : Handle} (h : Twins s document R)

include h

theorem alike_hasQuery (language name : String) : Alike R (hasQuery s language name) := by
  refine (alike_ask (h.ask (.query language name) trivial)).attempt.bind fun r => ?_
  rcases r with f | v
  · exact (alike_note h.log).bind fun _ => alike_pure
  · cases v <;> exact alike_pure

theorem alike_apply (o : Override) (handle : Handle) : Alike R (o.apply s handle) := by
  refine (alike_ask (h.ask (.getOption o.scope handle o.name) trivial)).attempt.bind fun r => ?_
  rcases r with f | current
  · exact alike_pure
  · refine Alike.ite alike_pure ?_
    exact (alike_ask (h.ask (.setOption _ _ _ _) trivial)).attempt.bind fun _ => alike_pure

theorem alike_override (name : String) (scope : Scope) (target : String)
    (handle : Handle) : Alike R (override s document name scope target handle) := by
  refine alike_state (fun w v hwv => by rw [h.features w v hwv]) fun st => ?_
  refine (alike_apply h _ _).bind fun r => ?_
  refine (alike_update fun w v hwv => h.change w v (fun f => f.setOverrides document _) hwv).bind
    fun _ => ?_
  rcases r.2 with f | (_ | _)
  · exact alike_fail
  · exact alike_pure
  · exact alike_note h.log

theorem alike_whenProvided (wanted : Bool) (language name : String) {act : Act σ Unit}
    (hact : Alike R act) : Alike R (whenProvided s wanted language name act) := by
  unfold whenProvided
  split
  · exact (alike_hasQuery h language name).bind fun _ => Alike.ite hact alike_pure
  · exact alike_pure

/-- Showing features runs alike in worlds that look the same. -/
theorem alike_start (language : String) (flags : Flags) :
    Alike R (start s document language flags) := by
  have targets : ∀ w v, R w v → w.state.features.targets = v.state.features.targets :=
    fun w v hwv => by rw [h.features w v hwv]
  refine (alike_update fun w v => h.change w v fun f => f.activate document).bind fun _ => ?_
  refine (alike_whenProvided h _ _ _ ?_).bind fun _ => ?_
  · exact (alike_ask (h.ask (.startHighlighting document language) rfl)).shielded h.log
  refine (alike_whenProvided h _ _ _ ?_).bind fun _ => ?_
  · refine (alike_state (fun w v hwv => by rw [targets w v hwv]) fun st => ?_).shielded h.log
    refine (alike_ask (h.ask (.viewOf document) rfl)).bind fun view => ?_
    exact (alike_override h _ _ _ _).bind fun _ => alike_override h _ _ _ _
  refine (alike_whenProvided h _ _ _ ?_).bind fun _ => alike_note h.log
  refine (alike_state (fun w v hwv => by rw [targets w v hwv]) fun st => ?_).shielded h.log
  exact alike_override h _ _ _ _

/-- Showing features does not fail, and leads to a world that looks like the one to which it leads
from a related world. -/
theorem leads_start_alike (v : World σ) (language : String) (flags : Flags) {E : World σ → Prop} :
    Leads (fun w => R w v) (start s document language flags)
      (fun _ w => R w ((start s document language flags).run v).2) E := by
  have started : Leads (fun _ => True) (start s document language flags) (fun _ _ => True)
      fun _ => False :=
    leads_start_of .always document (fun _ _ => trivial) (fun _ _ _ => trivial) language flags
  intro w hw
  obtain ⟨_, hok, -⟩ := started.exists_ok (w := w) trivial
  have related := ((alike_start h language flags) w v hw).2
  rcases hrun : (start s document language flags).run w with ⟨r, w'⟩
  rw [hrun] at hok related
  subst hok
  exact related

end Features

/-- Starting a document of a filetype leads to a world in which its features are shown as from a
related world. -/
theorem Enablement.leads_startAvailable_alike {document : Handle} {filetype : String}
    {P E : World σ → Prop} {v : World σ} (h : Twins s document R)
    (hlog : ∀ w l, P w → P { w with log := l })
    (hset : ∀ w, P w → R { w with state :=
      { w.state with registry := w.state.registry.set filetype .available } } v)
    (language : String) (flags : Flags) :
    Leads P (startAvailable s document filetype language flags)
      (fun _ w => R w ((Features.start s document language flags).run v).2) E := by
  let v' := ((Features.start s document language flags).run v).2
  refine (leads_setAvailability_by (Q := fun w => R w v) hlog hset).bind fun _ => ?_
  refine Leads.bind (Q := fun _ w => R w v') ?_ fun _ => leads_pure fun _ hw => hw
  exact (Features.leads_start_alike h v language flags).shielded fun w l hw =>
    h.log w v' l v'.log hw

end TreeFeatures
