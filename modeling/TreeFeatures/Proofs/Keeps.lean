import TreeFeatures.World

/-!
# What actions keep and lead to

Two judgements on actions. `Keeps I a`: the action leads from worlds with `I` to worlds with `I`,
whether it ends with a result or a fault. `Leads P a Q E`: from worlds with `P` it ends with a
result and a world that satisfy `Q`, or with a fault in a world that satisfies `E`. With `E` false
everywhere it cannot fail.

There is a rule for each way of building an action; a loop over a list has one with an invariant
that may speak of the rest of the list (`Leads.forM`). `news` is what happened on the way from one
world to another.

`World.fresh`, `World.equipped` and `Surroundings.outOfReach` are where examples begin: nothing done
yet, and nobody to ask.
-/

namespace TreeFeatures.Act

variable {σ α β : Type}

/-- An action keeps a property of worlds, whether it ends with a result or a fault. -/
def Keeps (I : World σ → Prop) (a : Act σ α) : Prop := ∀ w, I w → I (a.run w).2

/-- From worlds with `P`, an action ends with a result and a world that satisfy `Q`, or with a
fault in a world that satisfies `E`. -/
def Leads (P : World σ → Prop) (a : Act σ α) (Q : α → World σ → Prop) (E : World σ → Prop) : Prop :=
  ∀ w, P w → match a.run w with
    | (.ok x, w') => Q x w'
    | (.error _, w') => E w'

variable {P P' E E' I : World σ → Prop}

/-! ## Consequence -/

theorem Leads.mono {a : Act σ α} {Q Q' : α → World σ → Prop} (h : Leads P a Q E)
    (hP : ∀ w, P' w → P w) (hQ : ∀ x w, Q x w → Q' x w) (hE : ∀ w, E w → E' w) :
    Leads P' a Q' E' := by
  intro w hw
  have := h w (hP w hw)
  rcases ha : a.run w with ⟨_ | x, w'⟩
  · rw [ha] at this
    exact hE w' this
  · rw [ha] at this
    exact hQ x w' this

theorem Leads.weaken {a : Act σ α} {Q Q' : α → World σ → Prop} (h : Leads P a Q E)
    (hQ : ∀ x w, Q x w → Q' x w) : Leads P a Q' E :=
  h.mono (fun _ => id) hQ (fun _ => id)

/-- An action that cannot fail ends with a result. -/
theorem Leads.exists_ok {a : Act σ α} {Q : α → World σ → Prop} (h : Leads P a Q fun _ => False)
    {w : World σ} (hw : P w) : ∃ x, (a.run w).1 = .ok x ∧ Q x (a.run w).2 := by
  have := h w hw
  rcases ha : a.run w with ⟨_ | x, w'⟩
  · rw [ha] at this
    exact this.elim
  · rw [ha] at this
    exact ⟨x, rfl, this⟩

/-- A part of the precondition that is not about the world. -/
theorem Leads.assume {p : Prop} {a : Act σ α} {Q : α → World σ → Prop} (h : p → Leads P a Q E) :
    Leads (fun w => p ∧ P w) a Q E := fun w hw => h hw.1 w hw.2

/-- What an action leads to holds of the world after it, if result and fault agree on it. -/
theorem Leads.run {a : Act σ α} {Q : World σ → Prop} (h : Leads P a (fun _ => Q) Q) {w : World σ}
    (hw : P w) : Q (a.run w).2 := by
  have := h w hw
  rcases ha : a.run w with ⟨_ | x, w'⟩ <;> rwa [ha] at this

/-- An action leads to what holds of the world after it. -/
theorem leads_of_run {a : Act σ α} {Q : World σ → Prop} (h : ∀ w, P w → Q (a.run w).2) :
    Leads P a (fun _ => Q) Q := by
  intro w hw
  have := h w hw
  rcases ha : a.run w with ⟨_ | x, w'⟩ <;> rwa [ha] at this

theorem keeps_iff_leads {a : Act σ α} : Keeps I a ↔ Leads I a (fun _ => I) I :=
  ⟨leads_of_run, fun h _ hw => h.run hw⟩

theorem Keeps.leads {a : Act σ α} (h : Keeps I a) : Leads I a (fun _ => I) I :=
  keeps_iff_leads.mp h

theorem Leads.keeps {a : Act σ α} (h : Leads I a (fun _ => I) I) : Keeps I a :=
  keeps_iff_leads.mpr h

/-- Two things that an action leads to can be put together. -/
theorem Leads.and {a : Act σ α} {Q Q' : α → World σ → Prop} (h : Leads P a Q E)
    (h' : Leads P' a Q' E) :
    Leads (fun w => P w ∧ P' w) a (fun x w => Q x w ∧ Q' x w) E := by
  intro w hw
  have h₁ := h w hw.1
  have h₂ := h' w hw.2
  rcases ha : a.run w with ⟨_ | x, w'⟩
  · rw [ha] at h₁
    exact h₁
  · rw [ha] at h₁ h₂
    exact ⟨h₁, h₂⟩

/-- What an action keeps holds after a run that is known. -/
theorem Keeps.of_run {a : Act σ α} (h : Keeps I a) {w v : World σ} {r : Except Fault α}
    (hrun : a.run w = (r, v)) (hw : I w) : I v := by
  have := h w hw
  rwa [hrun] at this

/-- An action that cannot fail also keeps what it keeps. -/
theorem Leads.and_keeps {a : Act σ α} {Q : α → World σ → Prop} (h : Leads P a Q fun _ => False)
    (hI : Keeps I a) : Leads (fun w => P w ∧ I w) a (fun x w => Q x w ∧ I w) E := by
  intro w hw
  have hQ := h w hw.1
  have hw' := hI w hw.2
  rcases ha : a.run w with ⟨_ | x, w'⟩
  · rw [ha] at hQ
    exact hQ.elim
  · rw [ha] at hQ hw'
    exact ⟨hQ, hw'⟩

/-- What an action keeps holds where it runs, next to its result. -/
theorem Keeps.leads_run {a : Act σ α} (h : Keeps I a) {w : World σ} (hw : I w) :
    Leads (fun v => v = w) a (fun x v => I v ∧ a.run w = (.ok x, v)) I := by
  rintro v rfl
  have := h v hw
  rcases ha : a.run v with ⟨_ | x, w'⟩
  · rw [ha] at this
    exact this
  · rw [ha] at this
    exact ⟨this, rfl⟩

/-- An action whose run is known. -/
theorem leads_of_run_eq {a : Act σ α} {w w' : World σ} {x : α} (h : a.run w = (.ok x, w')) :
    Leads (fun v => v = w) a (fun y v => y = x ∧ v = w') E := by
  rintro v rfl
  rw [h]
  exact ⟨rfl, rfl⟩

/-! ## Rules for leading -/

theorem leads_pure {Q : α → World σ → Prop} {x : α} (h : ∀ w, P w → Q x w) :
    Leads P (pure x) Q E := fun w hw => h w hw

theorem Leads.bind {a : Act σ α} {f : α → Act σ β} {Q : α → World σ → Prop}
    {R : β → World σ → Prop} (ha : Leads P a Q E) (hf : ∀ x, Leads (Q x) (f x) R E) :
    Leads P (a >>= f) R E := by
  intro w hw
  have := ha w hw
  rw [run_bind]
  rcases h : a.run w with ⟨_ | x, w'⟩
  · rw [h] at this
    exact this
  · rw [h] at this
    exact hf x w' this

/-- Where two actions lead, one after the other, the second leads from where the first ends. -/
theorem Leads.of_bind {a : Act σ α} {f : α → Act σ β} {R : β → World σ → Prop}
    (h : Leads P (a >>= f) R E) :
    Leads P a (fun x w => Leads (fun v => v = w) (f x) R E) E := by
  intro w hw
  have := h w hw
  rw [run_bind] at this
  rcases ha : a.run w with ⟨_ | x, w'⟩
  · rw [ha] at this
    exact this
  · rw [ha] at this
    rintro v rfl
    exact this

theorem leads_state {Q : State → World σ → Prop} (h : ∀ w, P w → Q w.state w) :
    Leads P state Q E := fun w hw => h w hw

/-- The state is looked at, and what is known of it does not matter. -/
theorem leads_state_any : Leads P (state (σ := σ)) (fun _ => P) E := leads_state fun _ => id

/-- The state that is looked at is the one of the world. -/
theorem leads_state_eq : Leads P state (fun st w => st = w.state ∧ P w) E :=
  leads_state fun _ hw => ⟨rfl, hw⟩

theorem leads_update {f : State → State} {Q : World σ → Prop}
    (h : ∀ w, P w → Q { w with state := f w.state }) : Leads P (update f) (fun _ => Q) E :=
  fun w hw => h w hw

theorem leads_emit {e : Event} {Q : World σ → Prop}
    (h : ∀ w, P w → Q { w with trace := e :: w.trace }) : Leads P (emit e) (fun _ => Q) E :=
  fun w hw => h w hw

theorem leads_note {level : Level} {channel : Channel} {text : String} {Q : World σ → Prop}
    (h : ∀ w, P w → Q { w with log := ⟨level, channel, text⟩ :: w.log }) :
    Leads P (note level channel text) (fun _ => Q) E := fun w hw => h w hw

/-- The world after a call. -/
def afterCall (s : Surroundings σ) (c : Call) (w : World σ) : World σ :=
  { w with outside := (s.reply c w.outside).2, trace := .asked c :: w.trace }

theorem run_ask (s : Surroundings σ) (c : Call) (w : World σ) :
    (ask s c).run w = ((s.reply c w.outside).1, afterCall s c w) := rfl

theorem leads_ask {s : Surroundings σ} {c : Call} {Q : c.Reply → World σ → Prop}
    (hok : ∀ w x, P w → (s.reply c w.outside).1 = .ok x → Q x (afterCall s c w))
    (herror : ∀ w f, P w → (s.reply c w.outside).1 = .error f → E (afterCall s c w)) :
    Leads P (ask s c) Q E := by
  intro w hw
  rw [run_ask]
  cases h : (s.reply c w.outside).1 with
  | error f => exact herror w f hw h
  | ok x => exact hok w x hw h

/-- A call whose answer is known. -/
theorem leads_ask_of_reply {s : Surroundings σ} {c : Call} {x : c.Reply} {Q : World σ → Prop}
    (hreply : ∀ w, P w → (s.reply c w.outside).1 = .ok x) (hQ : ∀ w, P w → Q (afterCall s c w)) :
    Leads P (ask s c) (fun y w => y = x ∧ Q w) E := by
  intro w hw
  rw [run_ask, hreply w hw]
  exact ⟨rfl, hQ w hw⟩

theorem leads_attempt_ask {s : Surroundings σ} {c : Call}
    {R : Except Fault c.Reply → World σ → Prop}
    (h : ∀ w, P w → R (s.reply c w.outside).1 (afterCall s c w)) :
    Leads P (Act.attempt (ask s c)) R E := fun w hw => h w hw

/-- An action that is attempted does not fail. -/
theorem Leads.attempt {a : Act σ α} {Q : World σ → Prop} (h : Leads P a (fun _ => Q) Q) :
    Leads P (Act.attempt a) (fun _ => Q) E := fun _ hw => h.run hw

theorem Keeps.leads_attempt {a : Act σ α} (h : Keeps I a) :
    Leads I (Act.attempt a) (fun _ => I) E := h.leads.attempt

theorem Leads.shielded {a : Act σ Unit} {level : Level} {channel : Channel} {text : Fault → String}
    {Q : World σ → Prop} (h : Leads P a (fun _ => Q) Q)
    (hlog : ∀ w l, Q w → Q { w with log := l }) :
    Leads P (Act.shielded a level channel text) (fun _ => Q) E := by
  intro w hw
  have := h w hw
  rw [Act.shielded, run_of]
  rcases ha : a.run w with ⟨f | x, w'⟩
  · rw [ha] at this
    exact hlog w' _ this
  · rw [ha] at this
    exact this

theorem Leads.ite {Q : α → World σ → Prop} {c : Prop} [Decidable c] {a b : Act σ α}
    (ha : Leads P a Q E) (hb : Leads P b Q E) : Leads P (if c then a else b) Q E := by
  split
  · exact ha
  · exact hb

/-- A loop with an invariant that may speak of the rest of the list. -/
theorem Leads.forM {f : α → Act σ Unit} {J : List α → World σ → Prop} {xs : List α}
    (h : ∀ x rest, Leads (J (x :: rest)) (f x) (fun _ => J rest) E) :
    Leads (J xs) (xs.forM f) (fun _ => J []) E := by
  induction xs with
  | nil => exact leads_pure fun _ => id
  | cons x rest ih => exact (h x rest).bind fun _ => ih

/-- A loop whose rounds keep a property. -/
theorem Leads.forM_mem {f : α → Act σ Unit} {xs : List α}
    (h : ∀ x ∈ xs, Leads I (f x) (fun _ => I) E) : Leads I (xs.forM f) (fun _ => I) E := by
  induction xs with
  | nil => exact leads_pure fun _ => id
  | cons x rest ih =>
    exact (h x List.mem_cons_self).bind fun _ => ih fun y hy => h y (List.mem_cons_of_mem x hy)

theorem Leads.mapM {f : α → Act σ β} {xs : List α} (h : ∀ x ∈ xs, Leads I (f x) (fun _ => I) E) :
    Leads I (xs.mapM f) (fun _ => I) E := by
  induction xs with
  | nil =>
    rw [List.mapM_nil]
    exact leads_pure fun _ hw => hw
  | cons x rest ih =>
    rw [List.mapM_cons]
    refine (h x List.mem_cons_self).bind fun _ => ?_
    exact (ih fun y hy => h y (List.mem_cons_of_mem x hy)).bind fun _ => leads_pure fun _ hw => hw

/-- A loop over a list with an entry somewhere in it. -/
theorem forM_append_cons (f : α → Act σ Unit) (xs ys : List α) (x : α) :
    (xs ++ x :: ys).forM f = xs.forM f >>= fun _ => f x >>= fun _ => ys.forM f := by
  simp only [List.forM_eq_forM, List.forM_append, List.forM_cons]

/-! ## Rules for keeping -/

theorem keeps_pure {x : α} : Keeps I (pure x) := fun _ => id

theorem Keeps.bind {a : Act σ α} {f : α → Act σ β} (ha : Keeps I a) (hf : ∀ x, Keeps I (f x)) :
    Keeps I (a >>= f) :=
  (ha.leads.bind fun x => (hf x).leads).keeps

theorem Keeps.and {J : World σ → Prop} {a : Act σ α} (h : Keeps I a) (h' : Keeps J a) :
    Keeps (fun w => I w ∧ J w) a :=
  fun w hw => ⟨h w hw.1, h' w hw.2⟩

theorem keeps_state : Keeps I (state (σ := σ)) := fun _ => id

theorem keeps_fail {f : Fault} : Keeps I (fail f : Act σ α) := fun _ => id

theorem keeps_machine {s : Surroundings σ} : Keeps I (machine s) := fun _ => id

theorem keeps_update {f : State → State} (h : ∀ w, I w → I { w with state := f w.state }) :
    Keeps I (update f) := h

theorem keeps_emit {e : Event} (h : ∀ w, I w → I { w with trace := e :: w.trace }) :
    Keeps I (emit e) := h

theorem Keeps.attempt {a : Act σ α} (h : Keeps I a) : Keeps I (Act.attempt a) := h

theorem keeps_note (h : ∀ w l, I w → I { w with log := l }) {level : Level} {channel : Channel}
    {text : String} : Keeps I (note level channel text) := fun w hw => h w _ hw

theorem keeps_noteAll (h : ∀ w l, I w → I { w with log := l }) {entries : List LogEntry} :
    Keeps I (noteAll entries) := fun w hw => h w _ hw

theorem Keeps.shielded {a : Act σ Unit} (ha : Keeps I a) (h : ∀ w l, I w → I { w with log := l })
    {level : Level} {channel : Channel} {text : Fault → String} :
    Keeps I (Act.shielded a level channel text) :=
  (ha.leads.shielded h).keeps

theorem Keeps.forM {f : α → Act σ Unit} {xs : List α} (h : ∀ x ∈ xs, Keeps I (f x)) :
    Keeps I (xs.forM f) :=
  (Leads.forM_mem fun x hx => (h x hx).leads).keeps

theorem Keeps.ite {c : Prop} [Decidable c] {a b : Act σ α} (ha : Keeps I a) (hb : Keeps I b) :
    Keeps I (if c then a else b) :=
  (ha.leads.ite hb.leads).keeps

/-! ## What happened on the way -/

/-- What happened on the way from one world to a later one, newest first. -/
def news (w v : World σ) : List Event := v.trace.take (v.trace.length - w.trace.length)

theorem news_of_trace {w v : World σ} {es : List Event} (h : v.trace = es ++ w.trace) :
    news w v = es := by
  rw [news, h, List.length_append, Nat.add_sub_cancel, List.take_left']
  rfl

@[simp] theorem news_self (w : World σ) : news w w = [] :=
  news_of_trace (List.nil_append w.trace).symm

theorem news_append_trace {w v : World σ} (h : w.trace <:+ v.trace) :
    news w v ++ w.trace = v.trace := by
  obtain ⟨es, he⟩ := h
  rw [news_of_trace he.symm, he]

theorem news_cons {w v v' : World σ} {e : Event} (h : w.trace <:+ v.trace)
    (hv : v'.trace = e :: v.trace) : news w v' = e :: news w v := by
  refine news_of_trace ?_
  rw [hv, List.cons_append, news_append_trace h]

theorem news_append {w v u : World σ} (h : w.trace <:+ v.trace) (h' : v.trace <:+ u.trace) :
    news w u = news v u ++ news w v := by
  refine news_of_trace ?_
  rw [List.append_assoc, news_append_trace h, news_append_trace h']

end TreeFeatures.Act

namespace TreeFeatures

variable {σ : Type}

/-! ## Where nothing was done yet -/

/-- A machine without variables, home directories and files. -/
def Machine.empty : Machine := ⟨[], fun _ => none, fun _ => .missing⟩

/-- Surroundings that fail whatever they are asked, next to an empty machine. -/
def Surroundings.outOfReach (σ : Type) : Surroundings σ where
  reply _ x := (.error (.external "out of reach"), x)
  machine _ := .empty

/-- A world in which nothing was done yet. -/
def World.fresh (x : σ) (st : State) : World σ :=
  { state := st, outside := x, trace := [], log := [] }

/-- The same with settings and an installer. -/
def World.equipped (x : σ) (settings : Settings) : World σ :=
  .fresh x { settings := some settings, gateway := { installer := .present } }

end TreeFeatures
