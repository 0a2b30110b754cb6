import TreeFeatures.Proofs.Enablement.Waiting

/-!
# Lists of documents that wait

As long as there is a list of documents that wait for a language, the language is being installed,
and the enablement will hear about the end of it: the list is taken off the table then, or before if
a request cannot be made. No list is empty and none has a document twice, and nobody is told twice.

* `Neat`: what holds of all lists by themselves. `Neat.enqueue`, `Neat.dequeue`, `Neat.forget` and
  `Neat.accept` are the changes that lists go through.
* `exec_neat`: every step keeps the lists neat.
* `installed_takes`: after the end of an install there is no list for the language.
* `waiting_reported`: the result, from these and from what is known about documents that wait.
-/

namespace TreeFeatures.Enablement

open Act Install

/-- Lists of documents that wait are not empty, and nothing is on a list twice. -/
structure Neat (st : State) : Prop where
  waiting : ∀ l ws, Assoc.get? st.waiters l = some ws → ws ≠ [] ∧ ws.Nodup
  heard : ∀ l, (st.gateway.listeners l).Nodup

namespace Neat

variable {st : State}

theorem nodup_waitersOf (h : Neat st) (l : String) : (st.waitersOf l).Nodup := by
  unfold State.waitersOf
  cases hws : Assoc.get? st.waiters l with
  | none => exact List.nodup_nil
  | some ws => exact (h.waiting l ws hws).2

theorem enqueue (h : Neat st) (l : String) (x : Waiter) : Neat (st.enqueue l x) := by
  constructor
  · intro l' ws hws
    by_cases e : l = l'
    · subst e
      have hlist : ws = (st.enqueue l x).waitersOf l := by
        unfold State.waitersOf
        rw [hws]
        rfl
      constructor
      · rw [hlist]
        exact List.ne_nil_of_mem (mem_waitersOf_enqueue.mpr (.inr rfl))
      · unfold State.enqueue at hws
        simp only [Assoc.get?_put_self, Option.some.injEq] at hws
        rw [← hws]
        exact nodup_append_new (h.nodup_waitersOf l) x
    · unfold State.enqueue at hws
      rw [Assoc.get?_put_of_ne _ _ e] at hws
      exact h.waiting l' ws hws
  · exact h.heard

theorem dequeue (h : Neat st) (l : String) : Neat (st.dequeue l) := by
  constructor
  · intro l' ws hws
    unfold State.dequeue at hws
    by_cases e : l = l'
    · subst e
      rw [Assoc.get?_remove_self] at hws
      cases hws
    · rw [Assoc.get?_remove_of_ne _ e] at hws
      exact h.waiting l' ws hws
  · exact h.heard

theorem forget (h : Neat st) (l : String) : Neat { st with gateway := st.gateway.forget l } := by
  refine ⟨h.waiting, fun l' => ?_⟩
  show ((st.gateway.forget l).listeners l').Nodup
  rw [Gateway.listeners_forget]
  split
  · exact List.nodup_nil
  · exact h.heard l'

end Neat

/-- Who is to hear about several languages is put on each list once. -/
theorem nodup_listenAll {g : Gateway} (h : ∀ l, (g.listeners l).Nodup) (callback : Option Callback)
    (languages : List String) (l : String) :
    ((g.listenAll callback languages).listeners l).Nodup := by
  cases callback with
  | none => exact h l
  | some c =>
    induction languages generalizing g with
    | nil => exact h l
    | cons l' rest ih =>
      refine ih fun l'' => ?_
      rw [Gateway.listeners_listen]
      split
      · exact nodup_append_new (h l'') c
      · exact h l''

theorem Neat.accept {st : State} (h : Neat st) (wanted : List String)
    (callback : Option Callback) : Neat (Gateway.accept st wanted callback) := by
  constructor
  · intro l ws hws
    rw [Gateway.accept_eq] at hws
    exact h.waiting l ws hws
  · intro l
    rw [Gateway.accept_listeners]
    exact nodup_listenAll h.heard callback wanted l

/-! ## Steps -/

variable {σ : Type} {s : Surroundings σ}

theorem blind_neat {parts : List Part} {areas : List Area} (hwaiters : Part.waiters ∉ parts)
    (hcallbacks : Part.callbacks ∉ parts) : Blind s parts areas fun w => Neat w.state := by
  refine Blind.of_state (J := Neat) fun p hp st st' hst h => ?_
  cases hst with
  | waiters => exact absurd hp hwaiters
  | callbacks => exact absurd hp hcallbacks
  | _ => exact ⟨h.waiting, h.heard⟩

theorem neat_dispatch (languages : List String) (callback : Option Callback) :
    Keeps (fun w => Neat w.state) (Gateway.dispatch s languages callback) :=
  Gateway.keeps_dispatch_of (blind_neat (by simp) (by simp)) fun _ h _ => h.accept _ callback

/-- A document that has a language installed is put on its list, and if nothing can be installed then
there is no list any more. -/
theorem neat_installFor (document : Handle) (filetype language : String) :
    Keeps (fun w => Neat w.state) (installFor s document filetype language) := by
  refine (keeps_update fun w h => h.enqueue language _).bind fun _ => ?_
  refine (neat_dispatch [language] (some .enablement)).bind fun r => ?_
  cases r with
  | none => exact keeps_update fun w h => h.dequeue language
  | some id => exact keeps_pure

theorem neat_unheard (l : String) : Unheard s l fun w => Neat w.state where
  blind := blind_neat (by simp) (by simp)
  dequeue _ h := h.dequeue l
  forget _ h := h.forget l
  told _ _ _ h := h
  requested _ _ _ h := h
  dispatch r _ := neat_dispatch r.languages r.callback

/-- Every step keeps the lists neat. -/
theorem exec_neat (x : Step σ) {w : World σ} (hw : Neat w.state) : Neat (exec s x w).state := by
  have running : ∀ (v : World σ) (b : Bool), Neat v.state → Neat (v.setRunning b).state :=
    fun _ _ h => ⟨h.waiting, h.heard⟩
  cases x with
  | call b o =>
    refine exec_call_of (I := fun w => Neat w.state) running ?_
    refine perform_keeps (blind_neat (by simp) (by simp)) (fun _ document filetype language _ => ?_)
      (fun languages callback _ => neat_dispatch languages callback) (running w b hw)
    exact (neat_installFor document filetype language).leads.mono (fun _ h => h.1)
      (fun _ _ h => h) fun _ h => h
  | work j =>
    have worked : Leads (fun v => Neat v.state) (work s j) (fun _ v => Neat v.state)
        fun v => Neat v.state :=
      leads_work_quiet (blind_neat (by simp) (by simp)) (fun l => (neat_unheard l).withstands) j
    exact exec_work_of (I := fun w => Neat w.state) running hw
      (worked.run ⟨hw.waiting, hw.heard⟩)
  | _ => exact ⟨hw.waiting, hw.heard⟩

/-- After the end of an install there is no list for the language. -/
theorem installed_takes (l : String) (success : Bool) (w : World σ) :
    Assoc.get? ((installed s l success).run w).2.state.waiters l = none := by
  have blind : Blind s [.settings, .registry, .features] [.features, .options, .editor]
      fun v => Assoc.get? v.state.waiters l = none := by
    refine Blind.of_state (J := fun st => Assoc.get? st.waiters l = none) fun p hp st st' hst h => ?_
    cases hst with
    | waiters => simp at hp
    | _ => exact h
  rw [installed, run_bind_of_ok _ (run_state w), run_bind_of_ok _ (run_update _ w)]
  exact keeps_judgeInstall blind l success _ _ (Assoc.get?_remove_self _ l)

/-! ## Runs -/

theorem run_neat {w : World σ} (hw : Initial w) (steps : List (Step σ)) :
    Neat (run s steps w).state := by
  refine run_induction (I := fun w => Neat w.state) (fun x _ _ => exec_neat x) ?_
  rw [hw.state]
  exact ⟨nofun, fun _ => List.nodup_nil⟩

/-- **Documents that wait are reported to.** In a world that a run without cancelled tasks ends in,
if there is a list of documents that wait for a language, then it is not empty and has no document
twice, a task in flight installs the language, and the enablement is to be told about the end of
that install, once. The end of an install takes the list of the language off the table. -/
theorem waiting_reported {w₀ : World σ} (hw : Initial w₀) {steps : List (Step σ)}
    (hc : NoCancel steps) {w : World σ} (hrun : run s steps w₀ = w) (l : String) :
    (∀ ws, Assoc.get? w.state.waiters l = some ws →
      ws ≠ [] ∧ ws.Nodup ∧
      (∃ id t, Assoc.get? w.state.gateway.pending l = some id ∧ InFlight w.state id t ∧
        l ∈ t.languages) ∧
      (w.state.gateway.listeners l).count .enablement = 1) ∧
    ∀ success (u : World σ),
      Assoc.get? ((installed s l success).run u).2.state.waiters l = none := by
  refine ⟨fun ws hws => ?_, fun success u => installed_takes l success u⟩
  obtain ⟨sound, sheltered⟩ := run_sheltered (l := l) (s := s) hw hc
  have neat : Neat (run s steps w₀).state := run_neat hw steps
  rw [hrun] at sound sheltered neat
  obtain ⟨hne, hnodup⟩ := neat.waiting l ws hws
  have waits : (view l w).waiters ≠ [] := by
    show w.state.waitersOf l ≠ []
    unfold State.waitersOf
    rw [hws]
    exact hne
  obtain ⟨hears, installs⟩ := sheltered.resolve_left waits
  obtain ⟨id, hid⟩ := Option.ne_none_iff_exists'.mp installs
  obtain ⟨t, ht, -, hl⟩ := (sound.state.pending l id).mp hid
  refine ⟨hne, hnodup, ⟨id, t, hid, ht, hl⟩, ?_⟩
  exact (neat.heard l).count.trans (if_pos hears)

/-- Two documents of lua wait: the second one joined the install that the first one began. -/
theorem waiting_reported_twice :
    let s := Script.Stage.surroundings
    let attach (document : Nat) : Step Script.Stage :=
      .call true (.attach (some (.number document)) (some "lua"))
    let w := run s [attach 1, attach 2] luaWorld
    Assoc.get? w.state.waiters "lua" = some [⟨.number 1, "lua"⟩, ⟨.number 2, "lua"⟩] ∧
      Assoc.get? w.state.gateway.pending "lua" ≠ none ∧
      (w.state.gateway.listeners "lua").count .enablement = 1 := by
  intro s attach w
  have initial : Initial luaWorld := ⟨rfl, rfl⟩
  have uncancelled : NoCancel [attach 1, attach 2] := fun id => by simp [attach]
  have waiters : Assoc.get? w.state.waiters "lua" =
      some [⟨.number 1, "lua"⟩, ⟨.number 2, "lua"⟩] := by decide
  obtain ⟨-, -, ⟨id, t, hid, -, -⟩, once⟩ :=
    (waiting_reported initial uncancelled (w := w) rfl "lua").1 _ waiters
  refine ⟨waiters, ?_, once⟩
  rw [hid]
  exact nofun

end TreeFeatures.Enablement
