import TreeFeatures.Proofs.Alike
import TreeFeatures.Proofs.Enablement.Completion

/-!
# What the end of an install depends on

The end of an install looks at the entries of the registry, at who waits and who is to hear, at the
bundled languages, and at what the editor says about grammars. These are its `Grounds`: from worlds
with the same grounds a job leads to worlds with the same grounds, whatever else is different about
them, as the features of documents or whether documents are attached by themselves.

* `Steadfast`: surroundings in which showing features does not change what the editor says about
  grammars.
* `Even.installed`, `alike_tell`, `alike_conclude`, `together_advance`: the end of an install, from
  the enablement (`on_installed`) to the task that runs it.
* `exec_work_even`: the result for a job.
-/

namespace TreeFeatures.Enablement

open Act Install

variable {σ τ : Type} {s : Surroundings σ} {face : σ → τ}

/-- Surroundings in which the answers about grammars depend on a face only, and only the installer
changes the face. -/
structure Steadfast (s : Surroundings σ) (face : σ → τ) : Prop where
  addLanguage : ∀ l x y, face x = face y →
    (s.reply (.addLanguage l) x).1 = (s.reply (.addLanguage l) y).1
  filetypes : ∀ l x y, face x = face y →
    (s.reply (.filetypes l) x).1 = (s.reply (.filetypes l) y).1
  stays : ∀ c : Call, c.area ≠ .installer → ∀ x, face (s.reply c x).2 = face x

/-- What the end of an install depends on, next to the entries of the registry. -/
@[ext] structure Grounds (τ : Type) where
  waiters : Assoc String (List Waiter)
  callbacks : Assoc String (List Callback)
  bundled : List String
  face : τ

/-- The grounds that a world gives. -/
def grounds (face : σ → τ) (w : World σ) : Grounds τ where
  waiters := w.state.waiters
  callbacks := w.state.gateway.callbacks
  bundled := w.state.bundled
  face := face w.outside

/-- Two worlds are the same for the end of an install. -/
structure Even (face : σ → τ) (w v : World σ) : Prop where
  entry : ∀ ft, Assoc.get? w.state.registry ft = Assoc.get? v.state.registry ft
  grounds : grounds face w = grounds face v

namespace Even

variable {w v : World σ}

theorem symm (h : Even face w v) : Even face v w := ⟨fun ft => (h.entry ft).symm, h.grounds.symm⟩

theorem waitersOf (h : Even face w v) (l : String) : w.state.waitersOf l = v.state.waitersOf l := by
  have waiters : w.state.waiters = v.state.waiters := congrArg Grounds.waiters h.grounds
  unfold State.waitersOf
  rw [waiters]

theorem listeners (h : Even face w v) (l : String) :
    w.state.gateway.listeners l = v.state.gateway.listeners l := by
  have callbacks : w.state.gateway.callbacks = v.state.gateway.callbacks :=
    congrArg Grounds.callbacks h.grounds
  unfold Gateway.listeners
  rw [callbacks]

end Even

/-- The answer of the installer is judged by itself. -/
theorem alike_judge (languages : List String) (answer : Except Fault Value) :
    Alike (Even face) (Install.judge languages answer : Act σ Bool) := by
  have noted : ∀ level text (b : Bool),
      Alike (Even face) (do note level .installer text; pure b : Act σ Bool) :=
    fun level text b => (alike_note fun _ _ _ _ h => ⟨h.entry, h.grounds⟩).bind fun _ => alike_pure
  unfold Install.judge
  split
  · exact (alike_update fun _ _ h => ⟨h.entry, h.grounds⟩).bind fun _ => noted _ _ _
  · exact noted _ _ _
  · exact noted _ _ _

section Steadfast

variable {l : String} {success : Bool} {w v : World σ} {parts : List Part} {areas : List Area}
  (hs : Steadfast s face)

include hs

theorem blind_grounds (hwaiters : Part.waiters ∉ parts) (hcallbacks : Part.callbacks ∉ parts)
    (hbundled : Part.bundled ∉ parts) (hinstaller : Area.installer ∉ areas) (g : Grounds τ) :
    Blind s parts areas fun w => grounds face w = g where
  log _ _ h := h
  write p hp w st hst h := by
    cases hst with
    | waiters => exact absurd hp hwaiters
    | callbacks => exact absurd hp hcallbacks
    | bundled => exact absurd hp hbundled
    | _ => exact h
  ask c hc w h := by
    have stays := hs.stays c (fun e => hinstaller (e ▸ hc)) w.outside
    rw [← h]
    simp only [grounds, afterCall, stays]

/-- One of two worlds may change by all that the end of an install does not depend on. -/
theorem blind_even (hregistry : Part.registry ∉ parts) (hwaiters : Part.waiters ∉ parts)
    (hcallbacks : Part.callbacks ∉ parts) (hbundled : Part.bundled ∉ parts)
    (hinstaller : Area.installer ∉ areas) : Blind s parts areas fun w => Even face w v := by
  have rest := blind_grounds hs hwaiters hcallbacks hbundled hinstaller (grounds face v)
  have entry : ∀ ft, Blind s parts areas fun w =>
      Assoc.get? w.state.registry ft = Assoc.get? v.state.registry ft :=
    fun ft => blind_entry hregistry
  refine ⟨fun w k h => ⟨fun ft => ?_, ?_⟩, fun p hp w st hst h => ⟨fun ft => ?_, ?_⟩,
    fun c hc w h => ⟨fun ft => ?_, ?_⟩⟩
  · exact (entry ft).log w k (h.entry ft)
  · exact rest.log w k h.grounds
  · exact (entry ft).write p hp w st hst (h.entry ft)
  · exact rest.write p hp w st hst h.grounds
  · exact (entry ft).ask c hc w (h.entry ft)
  · exact rest.ask c hc w h.grounds

/-! ## The enablement -/

theorem findsUsable_even (h : Even face w v) :
    findsUsable s l success w = findsUsable s l success v := by
  have bundled : w.state.bundled = v.state.bundled := congrArg Grounds.bundled h.grounds
  have registers : registers s l w = registers s l v := by
    unfold registers
    rw [hs.addLanguage l _ _ (congrArg Grounds.face h.grounds)]
  unfold findsUsable
  rw [registers, bundled]

theorem face_tried (w : World σ) : face (tried s l success w) = face w.outside := by
  unfold tried
  split
  · exact hs.stays _ (by simp [Call.area]) _
  · rfl

theorem concerned_even (h : Even face w v) :
    concerned s l success w = concerned s l success v := by
  have faces : face (tried s l success w) = face (tried s l success v) :=
    (face_tried hs w).trans ((congrArg Grounds.face h.grounds).trans (face_tried hs v).symm)
  unfold concerned
  rw [h.waitersOf, hs.filetypes l _ _ faces]

/-- Next to entries, the end of an install only takes the documents that waited off the list. -/
theorem grounds_installed (w : World σ) :
    grounds face ((installed s l success).run w).2 =
      { grounds face w with waiters := Assoc.remove w.state.waiters l } := by
  have blind : Blind s [.settings, .registry, .features] [.features, .options, .editor] fun v =>
      grounds face v = { grounds face w with waiters := Assoc.remove w.state.waiters l } :=
    blind_grounds hs (by simp) (by simp) (by simp) (by simp) _
  rw [installed, run_bind_of_ok _ (run_state w), run_bind_of_ok _ (run_update _ w)]
  exact keeps_judgeInstall blind l success _ _ rfl

/-- The end of an install makes the same of worlds that are the same for it. -/
theorem Even.installed (h : Even face w v) :
    Even face ((installed s l success).run w).2 ((installed s l success).run v).2 where
  entry ft := by
    rw [installed_settled s l success w ft, installed_settled s l success v ft,
      concerned_even hs h, findsUsable_even hs h, h.entry ft]
  grounds := by
    have waiters : w.state.waiters = v.state.waiters := congrArg Grounds.waiters h.grounds
    rw [grounds_installed hs, grounds_installed hs, h.grounds, waiters]

/-! ## Everybody who asked -/

variable (hr : ∀ r, ¬ Reacts s r)

include hr

/-- Telling somebody about the end of an install, as long as nobody reacts with a request. -/
theorem alike_tell (c : Callback) : Alike (Even face) (tell s l success c) := by
  cases c with
  | enablement =>
    refine (alike_emit fun _ _ h => ⟨h.entry, h.grounds⟩).bind fun _ => ?_
    -- the documents that are started may be different ones
    exact together_shielded (fun _ _ h => h.installed hs) fun _ _ _ _ h => ⟨h.entry, h.grounds⟩
  | outside name =>
    refine alike_apart (fun _ _ => Even.symm) fun v => ?_
    exact leads_tell_outside (blind_even hs (by simp) (by simp) (by simp) (by simp) (by simp))
      (fun _ _ h => ⟨h.entry, h.grounds⟩) (fun _ _ _ h => ⟨h.entry, h.grounds⟩)
      (fun r h => absurd h (hr r)) name

theorem alike_announce (language : String) : Alike (Even face) (announce s success language) := by
  refine alike_state (fun w v h => by rw [h.listeners]) fun st => ?_
  refine (alike_update fun w v h => ⟨h.entry, ?_⟩).bind fun _ =>
    Alike.forM fun c _ => alike_tell hs hr c
  exact congrArg (fun g : Grounds τ => { g with callbacks := Assoc.remove g.callbacks language })
    h.grounds

theorem alike_conclude (id : TaskId) (languages : List String) (answer : Except Fault Value) :
    Alike (Even face) (conclude s id languages answer) := by
  refine (alike_judge languages answer).bind fun b => ?_
  refine (alike_update fun _ _ h => ⟨h.entry, h.grounds⟩).bind fun _ => ?_
  refine (Alike.forM fun l _ => alike_announce hs hr l).bind fun _ => ?_
  exact alike_update fun _ _ h => ⟨h.entry, h.grounds⟩

/-! ## Tasks -/

/-- Two worlds that are the same for the next job. -/
structure Aligned (face : σ → τ) (w v : World σ) : Prop where
  outside : w.outside = v.outside
  loop : w.state.loop = v.state.loop
  even : Even face w v

omit hs hr in
theorem Aligned.ask (h : Aligned face w v) (c : Call) :
    (s.reply c w.outside).1 = (s.reply c v.outside).1 ∧
      Even face (afterCall s c w) (afterCall s c v) := by
  rw [h.outside]
  refine ⟨rfl, h.even.entry, ?_⟩
  have same := congrArg (fun g : Grounds τ => { g with face := face (s.reply c v.outside).2 })
    h.even.grounds
  simpa only [grounds, afterCall, h.outside] using same

omit hs hr in
/-- Going on with the answer to a call, from worlds that are the same for the next job. -/
theorem together_answer {α : Type} (c : Call) {f : Except Fault c.Reply → Act σ α}
    (hf : ∀ answer, Alike (Even face) (f answer)) :
    Together (Aligned face) (attempt (ask s c) >>= f) (attempt (ask s c) >>= f)
      fun _ => Even face := by
  have asked : Together (Aligned face) (ask s c) (ask s c) fun _ => Even face :=
    together_ask fun _ _ h => h.ask c
  exact (asked.attempt (R := fun _ => Even face) fun _ _ _ h => h).bind hf fun _ _ _ h => h

theorem together_beginTask (id : TaskId) (t : Task) :
    Together (Aligned face) (beginTask s id t) (beginTask s id t) fun _ => Even face := by
  refine Together.ite (together_update fun _ _ h => ⟨h.even.entry, h.even.grounds⟩) ?_
  refine together_answer _ fun answer => ?_
  rcases answer with f | (x | ticket)
  · exact alike_conclude hs hr id t.languages (.error f)
  · exact alike_conclude hs hr id t.languages (.ok x)
  · exact alike_update fun _ _ h => ⟨h.entry, h.grounds⟩

theorem together_resumeTask (id : TaskId) (t : Task) (ticket : Nat) :
    Together (Aligned face) (resumeTask s id t ticket) (resumeTask s id t ticket)
      fun _ => Even face := by
  refine Together.ite ?_ ?_
  · refine (together_update (R := Even face) fun _ _ h => ⟨h.even.entry, h.even.grounds⟩).bind
      (fun _ => ?_) fun _ _ _ h => h
    exact alike_update fun _ _ h => ⟨h.entry, h.grounds⟩
  · exact together_answer _ fun answer => alike_conclude hs hr id t.languages answer

theorem together_advance (id : TaskId) :
    Together (Aligned face) (advance s id) (advance s id) fun _ => Even face := by
  refine together_state fun w v h => ?_
  rw [h.loop]
  refine Together.at ?_ h
  have idle : Together (Aligned face) (pure () : Act σ Unit) (pure ()) fun _ => Even face :=
    together_pure fun _ _ h => h.even
  cases v.state.loop.tasks[id]? with
  | none => exact idle
  | some t =>
    dsimp only
    split
    · exact together_beginTask hs hr id t
    · exact together_resumeTask hs hr id t _
    · exact idle
    · exact idle
    · exact idle

theorem together_work (j : Job) :
    Together (Aligned face) (work s j) (work s j) fun _ => Even face := by
  cases j with
  | task id => exact together_advance hs hr id
  | report wait => exact together_update fun _ _ h => ⟨h.even.entry, h.even.grounds⟩
  | look wait =>
    refine together_state fun w v h => ?_
    rw [h.loop]
    refine Together.at (P := Aligned face) ?_ h
    cases v.state.loop.waits[wait]? with
    | none => exact together_pure fun _ _ h => h.even
    | some _ => exact together_update fun _ _ h => ⟨h.even.entry, h.even.grounds⟩

/-- **What a job makes of the grounds.** From worlds that are the same for it, a job leads to worlds
that are the same for the end of an install. -/
theorem exec_work_even (j : Job) (h : Aligned face w v) :
    Even face (exec s (.work j) w) (exec s (.work j) v) := by
  by_cases hj : j ∈ w.state.loop.queue
  · have started : Aligned face (w.atWork j) (v.atWork j) :=
      ⟨h.outside, by simp [World.atWork, World.onLoop, World.setRunning, h.loop],
        h.even.entry, h.even.grounds⟩
    rw [exec_work hj, exec_work (h.loop ▸ hj)]
    have worked := (together_work hs hr j _ _ started).2
    exact ⟨worked.entry, worked.grounds⟩
  · rw [exec_work_of_not_mem hj, exec_work_of_not_mem (h.loop ▸ hj)]
    exact h.even

end Steadfast

end TreeFeatures.Enablement
