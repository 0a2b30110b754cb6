import TreeFeatures.Proofs.Enablement.Completion

/-!
# Failures are contained

Every call may fail: those of the editor, those of the search for an installer, those of the
installer. Once the settings are known, no such failure leaves the enablement.

* `leads_attach_contained`, `leads_installed_contained`, `leads_stop_contained`: attaching a document,
  the end of an install and hiding features do not fail.
* `Turn`: what becomes of a document that waited when its turn comes. `HandedOver`: the documents of
  a queue have their turns, one after the other; none of them misses it because another one failed.
* `failures_contained`: the result.
-/

namespace TreeFeatures.Enablement

open Act

variable {σ : Type} {s : Surroundings σ} {l : String} {E : World σ → Prop}

/-- The settings are known. -/
def Known (w : World σ) : Prop := w.state.settings ≠ none

/-! ## Attaching -/

theorem leads_prepare_contained : Leads Known (prepare s) (fun _ => Known) E := by
  have prepared := leads_prepare_of (s := s) (P := Known) (K := Known) (E := E) blind_known
    (fun w hw _ => hw) (leads_settings_of_known fun _ hw => hw) fun w _ hw => hw
  refine prepared.weaken fun fresh w hw => ?_
  cases fresh with
  | true => exact hw
  | false => exact hw.1

theorem leads_plan_contained (filetype : String) :
    Leads Known (plan s filetype) (fun _ => Known) E := by
  refine leads_plan_by (T := fun _ => True) leads_prepare_contained (fun _ hw => hw)
    (fun known => ?_) fun known language _ => ?_
  · have found : Blind s [] [.editor] fun w =>
        Known w ∧ Assoc.get? w.state.registry filetype = some known :=
      blind_known.and (blind_entry (by simp))
    exact (leads_languageFor_named found filetype).weaken fun _ _ hw => ⟨hw.1, fun _ _ => trivial⟩
  · refine Leads.mono (P := Known) ?_ (fun w hw => hw.1) (fun _ _ hw => hw) fun _ hw => hw
    refine (leads_resolve_of_known (fun _ hw => hw) _).bind fun flags => ?_
    exact (leads_decideOn blind_known _).weaken fun _ _ hw => hw.1

/-- Attaching a document does not fail. -/
theorem leads_attach_contained (document : Handle) (filetype : String) :
    Leads Known (attach s document filetype) (fun _ => Known) E := by
  refine (leads_plan_contained filetype).bind fun p => ?_
  refine leads_carryOut blind_known (fun _ hw => hw) document filetype p fun q _ _ => ?_
  have dispatched : Leads Known (Gateway.dispatch s [q.language] (some .enablement))
      (fun _ => Known) E := by
    refine Gateway.leads_dispatch blind_known (fun _ _ _ hw => hw) (fun _ hw => hw) ?_
    intro w hw _ _
    rw [Gateway.accept_eq]
    exact hw
  exact leads_installFor_of blind_known dispatched document filetype

/-! ## The documents that waited -/

/-- A document that waited has its turn: its features are shown, if the editor still has it, and else
it is passed over, with an entry of the log at most. -/
inductive Turn (s : Surroundings σ) (l : String) (flags : Flags) (x : Waiter) (w : World σ) :
    World σ → Prop
  | start (valid : (s.reply (.isValid x.document) w.outside).1 = .ok true) :
      Turn s l flags x w
        ((Features.start s x.document l flags).run (afterCall s (.isValid x.document) w)).2
  | pass (entries : List LogEntry) (few : entries.length ≤ 1)
      (invalid : (s.reply (.isValid x.document) w.outside).1 ≠ .ok true) :
      Turn s l flags x w { afterCall s (.isValid x.document) w with log := entries ++ w.log }

/-- The documents of a queue have their turns, from one world to another. -/
inductive HandedOver (s : Surroundings σ) (l : String) (flags : Flags) :
    List Waiter → World σ → World σ → Prop
  | nil (w : World σ) : HandedOver s l flags [] w w
  | cons {x : Waiter} {rest : List Waiter} {w v u : World σ} :
      Turn s l flags x w v → HandedOver s l flags rest v u → HandedOver s l flags (x :: rest) w u

/-- Showing features does not fail. -/
theorem run_start (document : Handle) (language : String) (flags : Flags) (w : World σ) :
    ((Features.start s document language flags).run w).1 = .ok () := by
  have started : Leads (fun _ => True) (Features.start s document language flags)
      (fun _ _ => True) fun _ => False :=
    Features.leads_start_of .always document (fun _ _ => trivial) (fun _ _ _ => trivial) language
      flags
  obtain ⟨_, hok, -⟩ := started.exists_ok (w := w) trivial
  exact hok

theorem leads_startWaiter_turn (flags : Flags) (x : Waiter) (w : World σ) :
    Leads (fun v => v = w) (startWaiter s l flags x) (fun _ v => Turn s l flags x w v) E := by
  rintro v rfl
  unfold startWaiter shielded
  rw [run_of, run_bind, run_ask]
  cases hr : (s.reply (.isValid x.document) v.outside).1 with
  | error f =>
    have invalid : (s.reply (.isValid x.document) v.outside).1 ≠ .ok true := by simp [hr]
    exact .pass [_] (Nat.le_refl 1) invalid
  | ok valid =>
    cases valid with
    | false =>
      have invalid : (s.reply (.isValid x.document) v.outside).1 ≠ .ok true := by simp [hr]
      exact .pass [] (Nat.zero_le 1) invalid
    | true =>
      have hok := run_start (s := s) x.document l flags (afterCall s (.isValid x.document) v)
      dsimp only
      rw [if_pos rfl, ← Prod.eta ((Features.start s x.document l flags).run _), hok]
      exact .start hr

/-- One document after the other has its turn. -/
theorem leads_startAll (flags : Flags) (waiters : List Waiter) (w : World σ) :
    Leads (fun v => v = w) (waiters.forM (startWaiter s l flags))
      (fun _ v => HandedOver s l flags waiters w v) E := by
  induction waiters generalizing w with
  | nil =>
    refine leads_pure fun v hv => ?_
    subst hv
    exact .nil v
  | cons x rest ih =>
    refine (leads_startWaiter_turn flags x w).bind fun _ v hv => ?_
    exact ((ih v).weaken fun _ u hu => .cons hv hu) v rfl

/-- The documents that waited have their turns, while documents are attached by themselves. -/
theorem leads_startWaiters_handed {x : Settings} {w : World σ} (hx : w.state.settings = some x)
    (hauto : w.state.autoAttach = true) (waiters : List Waiter) :
    Leads (fun v => v = w) (startWaiters s l waiters)
      (fun _ v => HandedOver s l (x.resolve (some l)) waiters w v) E := by
  rintro v rfl
  unfold startWaiters
  rw [run_bind_of_ok _ (run_state v), if_pos hauto, run_bind_of_ok _ (run_resolve hx _)]
  exact leads_startAll _ waiters v v rfl

/-- The end of an install does not fail. -/
theorem leads_installed_contained (success : Bool) (w : World σ) (hw : Known w) :
    Leads (fun v => v = w) (installed s l success) (fun _ _ => True) E := by
  refine leads_installed (P := Known) blind_known hw (fun _ => ?_) fun _ _ _ _ => trivial
  refine Leads.mono (P := Known) ?_ (fun v hv => hv.2) (fun _ _ hv => hv) fun _ hv => hv
  refine leads_state_any.bind fun st => Leads.ite ?_ (leads_note fun _ _ => trivial)
  refine (leads_resolve_of_known (fun _ hv => hv) _).bind fun flags v _ => ?_
  exact ((leads_startAll flags _ v).weaken fun _ _ _ => trivial) v rfl

/-- Hiding features does not fail, no matter what is known. -/
theorem leads_stop_contained (document : Handle) :
    Leads (fun _ => True) (Features.stop s document) (fun _ _ => True) E :=
  Features.leads_stop_of .always document fun _ _ => trivial

/-- **Failures are contained.** In every world in which the settings are known, whatever calls fail:

* attaching a document, the end of an install and hiding features do not fail;
* if the end of an install finds the language usable, and documents are attached by themselves, then
  on the way, once the entries are settled, every document that waited has its turn, in the order of
  the queue: its features are shown if the editor says that it still has it, whatever became of the
  others. -/
theorem failures_contained (s : Surroundings σ) {w : World σ} {x : Settings}
    (hx : w.state.settings = some x) :
    (∀ document filetype, ∃ a, ((attach s document filetype).run w).1 = .ok a) ∧
    (∀ l success, ((installed s l success).run w).1 = .ok ()) ∧
    (∀ document, ((Features.stop s document).run w).1 = .ok ()) ∧
    (∀ l success, findsUsable s l success w = true → w.state.autoAttach = true →
      ∃ u, Follows s w u ∧ u.state.features = w.state.features ∧ Settled s l success w u ∧
        HandedOver s l (x.resolve (some l)) (w.state.waitersOf l) u
          ((installed s l success).run w).2) := by
  have known : Known w := by
    unfold Known
    rw [hx]
    exact Option.some_ne_none x
  refine ⟨fun document filetype => ?_, fun l success => ?_, fun document => ?_,
    fun l success husable hauto => ?_⟩
  · obtain ⟨a, ha, -⟩ := (leads_attach_contained (s := s) document filetype).exists_ok known
    exact ⟨a, ha⟩
  · obtain ⟨_, hok, -⟩ := (leads_installed_contained (s := s) success w known).exists_ok rfl
    exact hok
  · obtain ⟨_, hok, -⟩ := (leads_stop_contained (s := s) document).exists_ok (w := w) trivial
    exact hok
  · let Before (st : State) : Prop :=
      st.features = w.state.features ∧ st.settings = some x ∧ st.autoAttach = true
    have blind : Blind s [.registry] [.editor] (Recorded s [] w fun _ => Before) := by
      refine blind_recorded (fun _ _ _ h => h) fun p hp _ st st' hst h => ?_
      cases hst with
      | registry => exact h
      | _ => simp at hp
    have started : Recorded s [] w (fun _ => Before) { w with state := w.state.dequeue l } :=
      (Recorded.refl (K := fun _ => Before) ⟨rfl, hx, hauto⟩).update fun _ h => h
    refine (leads_installed (Q := fun v => ∃ u, Follows s w u ∧
      u.state.features = w.state.features ∧ Settled s l success w u ∧
      HandedOver s l (x.resolve (some l)) (w.state.waitersOf l) u v)
      blind started (fun _ u hu => ?_) fun hb => ?_).run rfl
    · obtain ⟨hsettled, follows, hfeatures, hsettings, hattach⟩ := hu
      exact ((leads_startWaiters_handed hsettings hattach _).weaken fun _ v hv =>
        ⟨u, follows, hfeatures, hsettled, hv⟩) u rfl
    · rw [husable] at hb
      cases hb

/-- An editor whose state is whether it can register grammars. It fails whatever it is asked about
the features of documents, and it does not know about the first document any more. -/
def balkyEditor : Surroundings Bool where
  reply
    | .addLanguage _, x => (.ok (.bool x), x)
    | .isValid document, x =>
      (if document = .number 1 then .error (.external "out of reach") else .ok true, x)
    | c, x => (grammarless Bool).reply c x
  machine _ := .empty

/-- Lua is managed, installed when needed, and to be highlighted. -/
def balkyWorld : World Bool :=
  .equipped false { parsers := ["lua"], flags := { autoInstall := true, highlights := true } }

/-- Two documents wait for lua, and then its grammar is there. -/
def balking : List (Step Bool) :=
  [.call true (.attach (some (.number 1)) (some "lua")),
    .call true (.attach (some (.number 2)) (some "lua")), .meanwhile fun _ => true]

/-- The editor fails for the first document, and the second one shows features all the same. -/
theorem failures_contained_balking :
    let w := run balkyEditor balking balkyWorld
    let v := ((installed balkyEditor "lua" true).run w).2
    ((installed balkyEditor "lua" true).run w).1 = .ok () ∧
      (∃ u, HandedOver balkyEditor "lua" { autoInstall := true, highlights := true }
        [⟨.number 1, "lua"⟩, ⟨.number 2, "lua"⟩] u v) ∧
      v.state.features.isActive (.number 1) = false ∧
      v.state.features.isActive (.number 2) = true := by
  intro w v
  have known : w.state.settings =
      some { parsers := ["lua"], flags := { autoInstall := true, highlights := true } } := by
    decide +kernel
  have waiting : w.state.waitersOf "lua" = [⟨.number 1, "lua"⟩, ⟨.number 2, "lua"⟩] := by
    decide +kernel
  obtain ⟨-, finished, -, handed⟩ := failures_contained balkyEditor known
  obtain ⟨u, -, -, -, hu⟩ := handed "lua" true (by decide +kernel) (by decide +kernel)
  exact ⟨finished "lua" true, ⟨u, waiting ▸ hu⟩, by decide +kernel, by decide +kernel⟩

end TreeFeatures.Enablement
