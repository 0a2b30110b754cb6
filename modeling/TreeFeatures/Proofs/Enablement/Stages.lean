import TreeFeatures.Proofs.Enablement.Completion
import TreeFeatures.Proofs.Install.SingleFlight

/-!
# The stages of a language

Installs are kept apart by language, and what is known is kept by filetype. All that matters for
having a language installed on demand is its `Outlook`: its task and who hears about the end of it,
how often the installer was called with it, and the entries of all filetypes.

* `Once` are the stages that a language passes: nobody has asked for it, a task installs it, or all
  its filetypes are decided about.
* `Once.of_phase`, `Once.enter_available`, `Once.settle_other`: changes that keep to the stages.
  `Closing.settle`: the end of its own install decides about all filetypes of the language at once.
* `Calm` is what holds beside it for all languages, as long as nobody requests installs but
  documents that attach. `Looks` puts the two together.
* `outlook_set`, `outlook_forget`, `looks_unassign`, `Looks.onLoop`: how an outlook changes.
* `Looks.accept`: a document of a filetype about which nothing is known may have its language
  installed.
-/

namespace TreeFeatures.Enablement

open Act Install

variable {σ : Type} {s : Surroundings σ}

/-! ## Stages -/

/-- All that matters about a language for having it installed on demand. -/
@[ext] structure Outlook where
  initialized : Bool
  /-- What is known about a filetype. -/
  entry : String → Option Availability
  listeners : List Callback
  /-- The task that installs the language. -/
  task : Option TaskId
  phase : TaskId → Option Phase
  /-- How many calls of the installer had the language. -/
  calls : Nat

/-- The outlook on a language in a world. -/
def outlook (l : String) (w : World σ) : Outlook where
  initialized := w.state.initialized
  entry := Assoc.get? w.state.registry
  listeners := w.state.gateway.listeners l
  task := Assoc.get? w.state.gateway.pending l
  phase id := (w.state.loop.tasks[id]?).map Task.phase
  calls := (callsWith l w.trace).length

variable (G : String → Option String) (l : String)

namespace Outlook

/-- An entry is set. -/
def enter (v : Outlook) (ft : String) (a : Availability) : Outlook :=
  { v with entry := fun ft' => if ft' = ft then some a else v.entry ft' }

/-- The entries of the filetypes of a language are settled. -/
def settle (v : Outlook) (b : Bool) : Outlook :=
  { v with
    entry := fun ft =>
      if G ft = some l then (v.entry ft).map (Enablement.settle b) else v.entry ft }

/-- No filetype of the language is unavailable. -/
def Spared (v : Outlook) : Prop := ∀ ft, G ft = some l → v.entry ft ≠ some .unavailable

/-- Nobody has asked for the language. -/
structure Idle (v : Outlook) : Prop where
  unprepared : v.initialized = false → ∀ ft, v.entry ft = none
  untasked : v.task = none
  uncalled : v.calls = 0
  spared : v.Spared G l

/-- A task installs the language, and the enablement hears about the end of it. -/
structure Underway (id : TaskId) (v : Outlook) : Prop where
  initialized : v.initialized = true
  task : v.task = some id
  heard : v.listeners = [.enablement]
  once : v.calls ≤ 1
  spared : v.Spared G l

/-- The install of the language is over, and the enablement is still to be told. -/
structure Closing (v : Outlook) : Prop where
  initialized : v.initialized = true
  untasked : v.task = none
  once : v.calls ≤ 1

/-- All filetypes of the language are decided about, and certain ones are unavailable. -/
structure Decided (gone : List String) (v : Outlook) : Prop where
  initialized : v.initialized = true
  untasked : v.task = none
  once : v.calls ≤ 1
  known : ∀ ft, G ft = some l → v.entry ft ≠ some .unknown
  gone : ∀ ft ∈ gone, G ft = some l ∧ v.entry ft = some .unavailable

/-- The stages that a language passes, with filetypes that are known to be unavailable in the last
one. -/
inductive Once (gone : List String) (v : Outlook) : Prop where
  | idle : gone = [] → v.Idle G l → Once gone v
  /-- The installer was not called with the language while its task is queued. -/
  | underway (id : TaskId) (p : Phase) : gone = [] → v.Underway G l id → v.phase id = some p →
      (p = .queued → v.calls = 0) → Once gone v
  | decided : v.Decided G l gone → Once gone v

variable {G l} {v : Outlook} {gone : List String} {ft : String}

theorem Once.once (h : v.Once G l gone) : v.calls ≤ 1 := by
  cases h with
  | idle _ h => exact h.uncalled ▸ Nat.zero_le 1
  | underway _ _ _ h => exact h.once
  | decided h => exact h.once

/-- Once some filetype of the language is unavailable, all are decided about. -/
theorem Once.mark (h : v.Once G l []) (hG : G ft = some l) (hft : v.entry ft = some .unavailable) :
    v.Once G l [ft] := by
  cases h with
  | idle _ h => exact absurd hft (h.spared ft hG)
  | underway _ _ _ h => exact absurd hft (h.spared ft hG)
  | decided h =>
    refine .decided ⟨h.initialized, h.untasked, h.once, h.known, fun ft' hft' => ?_⟩
    rw [List.mem_singleton.mp hft']
    exact ⟨hG, hft⟩

theorem Once.marked (h : v.Once G l [ft]) : v.entry ft = some .unavailable := by
  cases h with
  | idle h _ => cases h
  | underway _ _ h => cases h
  | decided h => exact (h.gone ft (List.mem_singleton_self ft)).2

/-- A change of phases does not matter if it queues the task of the language not again. -/
theorem Once.of_phase (h : v.Once G l gone) {phase : TaskId → Option Phase}
    (hphase : ∀ id p, v.task = some id → v.phase id = some p →
      ∃ p', phase id = some p' ∧ (p' = .queued → p = .queued)) :
    Outlook.Once G l gone { v with phase := phase } := by
  cases h with
  | idle hg h => exact .idle hg ⟨h.unprepared, h.untasked, h.uncalled, h.spared⟩
  | underway id p hg h hp hq =>
    obtain ⟨p', hp', hqueued⟩ := hphase id p h.task hp
    exact .underway id p' hg ⟨h.initialized, h.task, h.heard, h.once, h.spared⟩ hp'
      fun e => hq (hqueued e)
  | decided h => exact .decided ⟨h.initialized, h.untasked, h.once, h.known, h.gone⟩

/-- A filetype with an entry becomes available, if it was not unavailable. -/
theorem Once.enter_available (h : v.Once G l gone) {a : Availability} (hft : v.entry ft = some a)
    (ha : a ≠ .unavailable) : (v.enter ft .available).Once G l gone := by
  have spared : v.Spared G l → (v.enter ft .available).Spared G l := by
    intro hs ft' hG
    unfold enter
    dsimp only
    split
    · exact nofun
    · exact hs ft' hG
  cases h with
  | idle hg h =>
    refine .idle hg ⟨fun hi => ?_, h.untasked, h.uncalled, spared h.spared⟩
    rw [h.unprepared hi ft] at hft
    cases hft
  | underway id p hg h hp hq =>
    exact .underway id p hg ⟨h.initialized, h.task, h.heard, h.once, spared h.spared⟩ hp hq
  | decided h =>
    refine .decided ⟨h.initialized, h.untasked, h.once, fun ft' hG => ?_, fun ft' hft' => ?_⟩
    · unfold enter
      dsimp only
      split
      · exact nofun
      · exact h.known ft' hG
    · obtain ⟨hG, hgone⟩ := h.gone ft' hft'
      have hne : ft' ≠ ft := by
        rintro rfl
        exact ha (Option.some.inj (hft.symm.trans hgone))
      refine ⟨hG, ?_⟩
      unfold enter
      dsimp only
      rw [if_neg hne, hgone]

/-- The end of the install of another language does not matter. -/
theorem Once.settle_other (h : v.Once G l gone) {l' : String} (hl : l' ≠ l) (b : Bool) :
    (v.settle G l' b).Once G l gone := by
  have same : ∀ ft, G ft = some l → (v.settle G l' b).entry ft = v.entry ft := by
    intro ft hG
    unfold settle
    dsimp only
    rw [if_neg fun e => hl (Option.some.inj (e.symm.trans hG))]
  have spared : v.Spared G l → (v.settle G l' b).Spared G l := fun hs ft hG => by
    rw [same ft hG]
    exact hs ft hG
  cases h with
  | idle hg h =>
    refine .idle hg ⟨fun hi ft => ?_, h.untasked, h.uncalled, spared h.spared⟩
    unfold settle
    dsimp only
    rw [h.unprepared hi ft]
    split <;> rfl
  | underway id p hg h hp hq =>
    exact .underway id p hg ⟨h.initialized, h.task, h.heard, h.once, spared h.spared⟩ hp hq
  | decided h =>
    refine .decided ⟨h.initialized, h.untasked, h.once, fun ft hG => ?_, fun ft hft => ?_⟩
    · rw [same ft hG]
      exact h.known ft hG
    · obtain ⟨hG, hgone⟩ := h.gone ft hft
      exact ⟨hG, (same ft hG).trans hgone⟩

/-- The end of its own install decides about all filetypes of the language. -/
theorem Closing.settle (h : v.Closing) (b : Bool) : (v.settle G l b).Decided G l [] := by
  refine ⟨h.initialized, h.untasked, h.once, fun ft hG => ?_, nofun⟩
  unfold Outlook.settle
  dsimp only
  rw [if_pos hG]
  cases v.entry ft with
  | none => exact nofun
  | some a => cases a <;> cases b <;> decide

end Outlook

/-! ## Beside the stages -/

/-- What holds as long as only documents that attach have languages installed. -/
structure Calm (G : String → Option String) (st : State) : Prop where
  /-- Documents wait for the language of their filetype. -/
  waiting : ∀ l, ∀ y ∈ st.waitersOf l, G y.filetype = some l
  /-- Nobody but the enablement hears about installs. -/
  heard : ∀ l, st.gateway.listeners l = [] ∨ st.gateway.listeners l = [.enablement]
  /-- A task has one language. -/
  alone : ∀ (id : TaskId) (t : Task), st.loop.tasks[id]? = some t → ∃ l, t.languages = [l]

/-- The program is calm, and the outlook on a language has a property. -/
structure Looks (G : String → Option String) (l : String) (K : Outlook → Prop) (w : World σ) :
    Prop where
  calm : Calm G w.state
  holds : K (outlook l w)

variable {G l} {gone : List String} {K K' : Outlook → Prop} {w : World σ} {st : State}

theorem Looks.mono (h : Looks G l K w) (hK : ∀ v, K v → K' v) : Looks G l K' w :=
  ⟨h.calm, hK _ h.holds⟩

/-- The parts of the state that an outlook, or being calm, is about. -/
abbrev looksParts : List Part :=
  [.registry, .initialized, .waiters, .callbacks, .pending, .tasks]

theorem blind_looks {parts : List Part} {areas : List Area} (hparts : ∀ p ∈ parts, p ∉ looksParts)
    (hareas : Area.installer ∉ areas) : Blind s parts areas (Looks G l K) := by
  refine ⟨fun _ _ hw => ⟨hw.calm, hw.holds⟩, fun p hp w st hst hw => ?_, fun c hc w hw => ?_⟩
  · cases hst with
    | registry | initialized | waiters | callbacks | pending | tasks =>
      exact absurd (by simp) (hparts _ hp)
    | _ => exact ⟨⟨hw.calm.waiting, hw.calm.heard, hw.calm.alone⟩, hw.holds⟩
  · cases c with
    | install languages => exact absurd hc hareas
    | _ => exact ⟨hw.calm, hw.holds⟩

/-! ## How an outlook changes -/

theorem outlook_set (ft : String) (a : Availability) (w : World σ) :
    outlook l { w with state := { w.state with registry := w.state.registry.set ft a } } =
      (outlook l w).enter ft a := by
  refine Outlook.ext rfl (funext fun ft' => ?_) rfl rfl rfl rfl
  show Assoc.get? (Assoc.put w.state.registry ft a) ft' = if ft' = ft then some a else _
  by_cases e : ft' = ft
  · rw [e, Assoc.get?_put_self, if_pos rfl]
  · rw [Assoc.get?_put_of_ne _ _ (Ne.symm e), if_neg e]
    rfl

theorem Calm.enqueue (h : Calm G st) {document : Handle} {filetype language : String}
    (hG : G filetype = some language) : Calm G (st.enqueue language ⟨document, filetype⟩) := by
  refine ⟨fun l y hy => ?_, h.heard, h.alone⟩
  rcases of_mem_waitersOf_enqueue hy with hy | ⟨rfl, rfl⟩
  · exact h.waiting l y hy
  · exact hG

theorem Calm.dequeue (h : Calm G st) (language : String) : Calm G (st.dequeue language) :=
  ⟨fun l y hy => h.waiting l y (of_mem_waitersOf_dequeue hy), h.heard, h.alone⟩

theorem Calm.forget (h : Calm G st) (l' : String) :
    Calm G { st with gateway := st.gateway.forget l' } := by
  refine ⟨h.waiting, fun l => ?_, h.alone⟩
  show (st.gateway.forget l').listeners l = [] ∨ (st.gateway.forget l').listeners l = _
  rw [Gateway.listeners_forget]
  split
  · exact .inl rfl
  · exact h.heard l

theorem outlook_forget (w : World σ) (l' : String) :
    outlook l { w with state := { w.state with gateway := w.state.gateway.forget l' } } =
      { outlook l w with listeners := if l' = l then [] else (outlook l w).listeners } :=
  Outlook.ext rfl rfl (Gateway.listeners_forget _ _ _) rfl rfl rfl

/-- A change of the loop that leaves their languages to the tasks. -/
theorem Looks.onLoop (h : Looks G l K w) {f : Loop → Loop}
    (hlanguages : ∀ (id : TaskId) (t : Task), (f w.state.loop).tasks[id]? = some t →
      ∃ u, w.state.loop.tasks[id]? = some u ∧ t.languages = u.languages)
    (hK : ∀ v : Outlook, K v → v.phase = (outlook l w).phase →
      K' { v with phase := fun id => ((f w.state.loop).tasks[id]?).map Task.phase }) :
    Looks G l K' (w.onLoop f) := by
  refine ⟨⟨h.calm.waiting, h.calm.heard, fun id t ht => ?_⟩, hK (outlook l w) h.holds rfl⟩
  obtain ⟨u, hu, hlanguages⟩ := hlanguages id t ht
  obtain ⟨language, halone⟩ := h.calm.alone id u hu
  exact ⟨language, hlanguages.trans halone⟩

theorem looks_unassign (h : Looks G l K w) {languages : List String}
    (hK : ∀ v : Outlook, K v → K' { v with task := if l ∈ languages then none else v.task }) :
    Looks G l K'
      { w with state := { w.state with gateway := w.state.gateway.unassign languages } } := by
  refine ⟨⟨h.calm.waiting, h.calm.heard, h.calm.alone⟩, ?_⟩
  have := hK _ h.holds
  rwa [show outlook l { w with state :=
      { w.state with gateway := w.state.gateway.unassign languages } } =
    { outlook l w with task := if l ∈ languages then none else (outlook l w).task } from
      Outlook.ext rfl rfl rfl (Assoc.get?_foldl_remove _ _ _) rfl rfl]

/-! ## Requests -/

/-- After a document had its language installed, the enablement hears about the language. -/
theorem Calm.listeners_accept (h : Calm G st) (language l : String) :
    (Gateway.accept st [language] (some .enablement)).gateway.listeners l =
      if language = l then [.enablement] else st.gateway.listeners l := by
  rw [Gateway.accept_listeners]
  show (st.gateway.listen .enablement language).listeners l = _
  rw [Gateway.listeners_listen]
  rcases h.heard l with e | e <;> simp [e]

theorem Calm.accept (h : Calm G st) (language : String) :
    Calm G (Gateway.accept st [language] (some .enablement)) := by
  refine ⟨?_, fun l => ?_, fun id t ht => ?_⟩
  · rw [Gateway.accept_eq]
    exact h.waiting
  · rw [h.listeners_accept]
    split
    · exact .inr rfl
    · exact h.heard l
  · rcases Gateway.accept_task_cases st _ _ ht with hold | ⟨-, hf, rfl⟩
    · exact h.alone id t hold
    · refine ⟨language, ?_⟩
      rw [Gateway.fresh_singleton] at hf ⊢
      split at hf
      · next hn => exact if_pos hn
      · exact absurd rfl hf

theorem Calm.outlook_accept (h : Calm G w.state) (language : String) :
    outlook l { w with state := Gateway.accept w.state [language] (some .enablement) } =
      { outlook l w with
        listeners := if language = l then [.enablement] else (outlook l w).listeners
        task := if l ∈ w.state.gateway.fresh [language] then some w.state.loop.tasks.length
          else (outlook l w).task
        phase := fun id => ((Gateway.accept w.state [language]
          (some .enablement)).loop.tasks[id]?).map Task.phase } := by
  refine Outlook.ext ?_ ?_ (h.listeners_accept language l) (Gateway.accept_pending _ _ _ l) rfl rfl
  · show (Gateway.accept w.state _ _).initialized = _
    rw [Gateway.accept_eq]
    rfl
  · show Assoc.get? (Gateway.accept w.state _ _).registry = _
    rw [Gateway.accept_eq]
    rfl

/-- A document of a filetype about which nothing is known has its language installed. -/
theorem Looks.accept {filetype language : String} (hG : G filetype = some language)
    (h : Looks G l (fun v => v.Once G l gone ∧ v.entry filetype = some .unknown) w) :
    Looks G l (Outlook.Once G l gone)
      { w with state := Gateway.accept w.state [language] (some .enablement) } := by
  refine ⟨h.calm.accept language, ?_⟩
  rw [h.calm.outlook_accept]
  obtain ⟨hcalm, once, hunknown⟩ := h
  -- the tasks that there were go on as they are
  have kept : ∀ id p, (outlook l w).phase id = some p → ((Gateway.accept w.state [language]
      (some .enablement)).loop.tasks[id]?).map Task.phase = some p := by
    intro id p hp
    obtain ⟨t, ht, rfl⟩ := Option.map_eq_some_iff.mp hp
    rw [Gateway.accept_task _ _ _ ht]
    rfl
  by_cases e : language = l
  · subst e
    rw [if_pos rfl, Gateway.fresh_singleton]
    cases once with
    | idle hg h =>
      have untasked : Assoc.get? w.state.gateway.pending language = none := h.untasked
      have initialized : w.state.initialized = true := by
        refine eq_true_of_ne_false fun hi => ?_
        rw [h.unprepared hi filetype] at hunknown
        cases hunknown
      refine .underway w.state.loop.tasks.length .queued hg
        ⟨initialized, ?_, rfl, h.uncalled ▸ Nat.zero_le 1, h.spared⟩ ?_ fun _ => h.uncalled
      · rw [if_pos untasked]
        exact if_pos (List.mem_singleton_self _)
      · dsimp only
        rw [Gateway.accept_tasks, Gateway.fresh_singleton, if_pos untasked, if_neg (List.cons_ne_nil _ _),
          List.getElem?_concat_length]
        rfl
    | underway id p hg h hp hq =>
      have tasked : Assoc.get? w.state.gateway.pending language ≠ none := by
        rw [show Assoc.get? w.state.gateway.pending language = some id from h.task]
        exact nofun
      refine .underway id p hg ⟨h.initialized, ?_, rfl, h.once, h.spared⟩ (kept id p hp) hq
      rw [if_neg tasked]
      exact h.task
    | decided h => exact absurd hunknown (h.known filetype hG)
  · have hfresh : l ∉ w.state.gateway.fresh [language] := fun hl =>
      e (List.mem_singleton.mp (Gateway.mem_fresh.mp hl).1).symm
    rw [if_neg e, if_neg hfresh]
    exact once.of_phase fun id p _ hp => ⟨p, kept id p hp, fun hq => hq⟩

end TreeFeatures.Enablement
