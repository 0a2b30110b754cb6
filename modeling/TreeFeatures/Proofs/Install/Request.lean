import TreeFeatures.Proofs.Footprint

/-!
# What a request for an install does

`Gateway.accept` is what a request does to the state when there is an installer and the loop runs;
`Gateway.acceptedBy` is the task that it is answered with. Any other request leaves everything but
the installer as it is (`leads_dispatch`).

* `accept_pending`, `accept_tasks`: the languages that nobody installs yet go to a new task, the
  others stay with theirs.
* `accept_listeners`: whoever asked hears about each language.
* `nodup_requested`, `mem_requested`: what is asked for has no repetitions and no empty names.
* `Sought`: somebody has looked for an installer; `leads_isPresent_sought`: after that question,
  somebody has.
-/

namespace TreeFeatures.Gateway

open Act

variable {σ : Type} {s : Surroundings σ} {I P E : World σ → Prop}

/-- The state after a request that there is an installer for. -/
def accept (st : State) (wanted : List String) (callback : Option Callback) : State :=
  let gateway := st.gateway.listenAll callback wanted
  match gateway.fresh wanted with
  | [] => { st with gateway := gateway }
  | fresh =>
    { st with
      gateway := gateway.assign fresh st.loop.tasks.length
      loop := st.loop.create fresh }

/-- The task that such a request is answered with. -/
def acceptedBy (st : State) (wanted : List String) : Option TaskId :=
  match st.gateway.fresh wanted with
  | [] => wanted.head?.bind fun first => Assoc.get? st.gateway.pending first
  | _ => some st.loop.tasks.length

/-! ## What is asked for -/

theorem nodup_requested (languages : List String) : (requested languages).Nodup :=
  (nodup_distinct languages).filter _

@[simp] theorem mem_requested {languages : List String} {l : String} :
    l ∈ requested languages ↔ l ∈ languages ∧ l ≠ "" := by
  simp [requested]

theorem requested_singleton {l : String} (hl : l ≠ "") : requested [l] = [l] := by
  have : distinct [l] = [l] := rfl
  rw [requested, this]
  simp [hl]

/-! ## Accepting -/

theorem listenAll_pending (g : Gateway) (callback : Option Callback) (languages : List String) :
    (g.listenAll callback languages).pending = g.pending := by
  rw [listenAll_eq]

theorem listenAll_fresh (g : Gateway) (callback : Option Callback) (languages wanted : List String) :
    (g.listenAll callback languages).fresh wanted = g.fresh wanted := by
  unfold fresh
  rw [listenAll_pending]

@[simp] theorem mem_fresh {g : Gateway} {wanted : List String} {l : String} :
    l ∈ g.fresh wanted ↔ l ∈ wanted ∧ Assoc.get? g.pending l = none := by
  simp [fresh, Assoc.has]

theorem fresh_singleton (g : Gateway) (l : String) :
    g.fresh [l] = if Assoc.get? g.pending l = none then [l] else [] := by
  unfold fresh Assoc.has
  cases h : Assoc.get? g.pending l <;> simp [h]

/-- One description of accepting, whether or not there is anything new. -/
theorem accept_eq (st : State) (wanted : List String) (callback : Option Callback) :
    accept st wanted callback =
      { st with
        gateway := (st.gateway.listenAll callback wanted).assign (st.gateway.fresh wanted)
          st.loop.tasks.length
        loop := if st.gateway.fresh wanted = [] then st.loop
          else st.loop.create (st.gateway.fresh wanted) } := by
  unfold accept
  simp only [listenAll_fresh]
  cases st.gateway.fresh wanted with
  | nil => rfl
  | cons l rest => simp

theorem accept_pending (st : State) (wanted : List String) (callback : Option Callback)
    (l : String) :
    Assoc.get? (accept st wanted callback).gateway.pending l =
      if l ∈ st.gateway.fresh wanted then some st.loop.tasks.length
      else Assoc.get? st.gateway.pending l := by
  rw [accept_eq]
  simp only [assign, Assoc.get?_putAll_const, listenAll_pending]

theorem accept_tasks (st : State) (wanted : List String) (callback : Option Callback) :
    (accept st wanted callback).loop.tasks =
      if st.gateway.fresh wanted = [] then st.loop.tasks
      else st.loop.tasks ++ [{ languages := st.gateway.fresh wanted }] := by
  rw [accept_eq]
  by_cases h : st.gateway.fresh wanted = []
  · simp [h]
  · simp [h, Loop.create, Loop.push]

theorem accept_length_le (st : State) (wanted : List String) (callback : Option Callback) :
    st.loop.tasks.length ≤ (accept st wanted callback).loop.tasks.length := by
  rw [accept_tasks]
  split
  · exact Nat.le_refl _
  · rw [List.length_append]
    exact Nat.le_add_right _ _

/-- Tasks that are there stay as they are. -/
theorem accept_task (st : State) (wanted : List String) (callback : Option Callback) {id : TaskId}
    {t : Task} (h : st.loop.tasks[id]? = some t) :
    (accept st wanted callback).loop.tasks[id]? = some t := by
  have hlt := (List.getElem?_eq_some_iff.mp h).1
  rw [accept_tasks]
  split
  · exact h
  · rw [List.getElem?_append_left hlt, h]

/-- A task that was not there is the new one. -/
theorem accept_task_cases (st : State) (wanted : List String) (callback : Option Callback)
    {id : TaskId} {t : Task} (h : (accept st wanted callback).loop.tasks[id]? = some t) :
    st.loop.tasks[id]? = some t ∨
      (id = st.loop.tasks.length ∧ st.gateway.fresh wanted ≠ [] ∧
        t = { languages := st.gateway.fresh wanted }) := by
  rw [accept_tasks] at h
  split at h
  · exact .inl h
  · next hf =>
    rw [List.getElem?_append] at h
    split at h
    · exact .inl h
    · next hge =>
      have hid : id - st.loop.tasks.length = 0 := by
        have := (List.getElem?_eq_some_iff.mp h).1
        simpa using this
      rw [hid] at h
      refine .inr ⟨?_, hf, by simpa using h.symm⟩
      exact Nat.le_antisymm (Nat.sub_eq_zero_iff_le.mp hid) (Nat.le_of_not_lt hge)

/-- Whoever is to hear about a language is put last, unless it does already. -/
theorem listeners_listen (g : Gateway) (callback : Callback) (l l' : String) :
    (g.listen callback l).listeners l' =
      if l = l' then
        if callback ∈ g.listeners l' then g.listeners l' else g.listeners l' ++ [callback]
      else g.listeners l' := by
  unfold listeners listen
  by_cases hl : l = l'
  · subst hl
    rw [if_pos rfl]
    simp only [Assoc.get?_put_self, Option.getD_some]
  · rw [if_neg hl]
    simp only [Assoc.get?_put_of_ne _ _ hl]

theorem listen_listeners (g : Gateway) (callback : Callback) (l l' : String) {c : Callback}
    (h : c ∈ g.listeners l') : c ∈ (g.listen callback l).listeners l' := by
  rw [listeners_listen]
  split
  · split
    · exact h
    · exact List.mem_append_left _ h
  · exact h

theorem mem_listen (g : Gateway) (callback : Callback) (l : String) :
    callback ∈ (g.listen callback l).listeners l := by
  rw [listeners_listen, if_pos rfl]
  split
  · assumption
  · exact List.mem_append_right _ (List.mem_singleton_self callback)

theorem listeners_forget (g : Gateway) (l l' : String) :
    (g.forget l).listeners l' = if l = l' then [] else g.listeners l' := by
  unfold forget listeners
  by_cases hl : l = l'
  · subst hl
    rw [if_pos rfl, Assoc.get?_remove_self]
    rfl
  · rw [if_neg hl, Assoc.get?_remove_of_ne _ hl]

/-- Who wants to hear about a language already still does. -/
theorem listenAll_listeners (g : Gateway) (callback : Option Callback) (ls : List String)
    {l : String} {c : Callback} (h : c ∈ g.listeners l) :
    c ∈ (g.listenAll callback ls).listeners l := by
  cases callback with
  | none => exact h
  | some callback =>
    induction ls generalizing g with
    | nil => exact h
    | cons l' rest ih => exact ih _ (listen_listeners g callback l' l h)

/-- Whoever asks hears about each language. -/
theorem mem_listenAll (g : Gateway) (callback : Callback) (ls : List String) {l : String}
    (h : l ∈ ls) : callback ∈ (g.listenAll (some callback) ls).listeners l := by
  induction ls generalizing g with
  | nil => cases h
  | cons l' rest ih =>
    rcases List.mem_cons.mp h with rfl | h
    · exact listenAll_listeners (g.listen callback l) (some callback) rest (mem_listen g callback l)
    · exact ih _ h

/-- Nobody else does. -/
theorem of_mem_listenAll (g : Gateway) (callback : Callback) (ls : List String) {l : String}
    {c : Callback} (h : c ∈ (g.listenAll (some callback) ls).listeners l) :
    c = callback ∨ c ∈ g.listeners l := by
  induction ls generalizing g with
  | nil => exact .inr h
  | cons l' rest ih =>
    refine (ih _ h).elim .inl fun hc => ?_
    rw [listeners_listen] at hc
    split at hc
    · split at hc
      · exact .inr hc
      · exact (List.mem_append.mp hc).elim .inr fun hc => .inl (List.mem_singleton.mp hc)
    · exact .inr hc

/-- A request that is accepted is answered with a task. -/
theorem acceptedBy_ne_none {st : State} {wanted : List String} (h : wanted ≠ []) :
    acceptedBy st wanted ≠ none := by
  unfold acceptedBy
  split
  · next hf =>
    obtain ⟨first, rest, rfl⟩ := List.exists_cons_of_ne_nil h
    intro hn
    have : first ∈ st.gateway.fresh (first :: rest) := mem_fresh.mpr ⟨List.mem_cons_self, hn⟩
    rw [hf] at this
    cases this
  · exact nofun

/-- A language that nobody installs yet goes to a new task, and whoever asked is answered with it. -/
theorem accept_new {st : State} {wanted : List String} {l : String} (hl : l ∈ wanted)
    (hfree : Assoc.get? st.gateway.pending l = none) (callback : Option Callback) :
    l ∈ st.gateway.fresh wanted ∧ acceptedBy st wanted = some st.loop.tasks.length ∧
      (accept st wanted callback).loop.tasks[st.loop.tasks.length]? =
        some { languages := st.gateway.fresh wanted } := by
  have hf : l ∈ st.gateway.fresh wanted := mem_fresh.mpr ⟨hl, hfree⟩
  have hne := List.ne_nil_of_mem hf
  refine ⟨hf, ?_, ?_⟩
  · unfold acceptedBy
    split
    · next h => exact absurd h hne
    · rfl
  · rw [accept_tasks, if_neg hne, List.getElem?_concat_length]

theorem accept_listeners (st : State) (wanted : List String) (callback : Option Callback) :
    (accept st wanted callback).gateway.listeners =
      (st.gateway.listenAll callback wanted).listeners := by
  rw [accept_eq]
  rfl

/-! ## Requests -/

/-- Somebody has looked for an installer, and found one or not. -/
inductive Sought : Bool → Installer → Prop
  | present : Sought true .present
  | missing (r : Report) : Sought false (.missing r)

theorem Sought.eq_true_iff {b : Bool} {i : Installer} (h : Sought b i) : b = true ↔ i = .present := by
  cases h <;> simp

/-- Once somebody has looked for an installer, nobody looks again. -/
theorem run_isPresent_sought {b : Bool} {w : World σ} (h : Sought b w.state.gateway.installer) :
    (isPresent s).run w = (.ok b, w) := by
  rw [isPresent, run_bind_of_ok _ (run_state w)]
  generalize w.state.gateway.installer = i at h
  cases h <;> rfl

/-- An installer that is there is not looked for. -/
theorem run_isPresent {w : World σ} (h : w.state.gateway.installer = .present) :
    (isPresent s).run w = (.ok true, w) :=
  run_isPresent_sought (h ▸ .present)

/-- Looking for an installer does not fail, and afterwards somebody has. -/
theorem leads_isPresent_sought (h : Blind s [.installer] [.discovery] I) :
    Leads I (isPresent s) (fun b w => I w ∧ Sought b w.state.gateway.installer) E := by
  have remembered : ∀ (i : Installer) (b : Bool), Sought b i → ∀ w, I w →
      I { w with state := { w.state with gateway := { w.state.gateway with installer := i } } } ∧
        Sought b i :=
    fun i b hb w hw => ⟨h.write .installer (by simp) w _ (.installer w.state i) hw, hb⟩
  have missing : ∀ cause, Leads I (rememberMissing cause)
      (fun b w => I w ∧ Sought b w.state.gateway.installer) E := fun cause w hw =>
    have after := remembered _ false (.missing (missingReport cause)) w hw
    ⟨h.log _ _ after.1, after.2⟩
  refine leads_state_eq.bind fun st => ?_
  rintro w ⟨rfl, hw⟩
  cases hi : w.state.gateway.installer with
  | present => exact ⟨hw, hi ▸ .present⟩
  | missing r => exact ⟨hw, hi ▸ .missing r⟩
  | unsought search =>
    refine ((Discovery.keeps_find (h.mono (by simp) (by simp)) search).leads_attempt.bind
      fun r => ?_) w hw
    rcases r with f | (_ | _)
    · exact (leads_note fun w hw => h.log w _ hw).bind fun _ => missing _
    · exact missing none
    · exact (leads_update (remembered _ true .present)).bind fun _ => leads_pure fun _ hw => hw

/-- Looking for an installer does not fail, and afterwards there is one if and only if the answer is
yes. -/
theorem leads_isPresent (h : Blind s [.installer] [.discovery] I) :
    Leads I (isPresent s)
      (fun p w => I w ∧ (p = true ↔ w.state.gateway.installer = .present)) E :=
  (leads_isPresent_sought h).weaken fun _ _ hw => ⟨hw.1, hw.2.eq_true_iff⟩

/-- A request, by what looking for an installer leads to. -/
theorem leads_dispatch_by {languages : List String} {callback : Option Callback}
    {Q : Option TaskId → World σ → Prop} {T : Bool → World σ → Prop}
    (hlog : ∀ r w l, Q r w → Q r { w with log := l })
    (hempty : requested languages = [] → ∀ w, P w → Q none w)
    (hpresent : Leads P (isPresent s) T E) (hmissing : ∀ w, T false w → Q none w)
    (hstopped : ∀ w, T true w → w.state.loop.isRunning = false → Q none w)
    (haccept : ∀ w, T true w → requested languages ≠ [] → w.state.loop.isRunning = true →
      Q (acceptedBy w.state (requested languages))
        { w with state := accept w.state (requested languages) callback }) :
    Leads P (dispatch s languages callback) Q E := by
  unfold dispatch
  split
  · next hwanted => exact leads_pure (hempty hwanted)
  · next first others hwanted =>
    rw [hwanted] at haccept
    refine hpresent.bind fun present => ?_
    cases present with
    | false => exact leads_pure hmissing
    | true =>
      intro w hw
      rw [if_pos rfl, run_bind_of_ok _ (run_state w)]
      by_cases hr : w.state.loop.isRunning = true
      · have := haccept w hw (by simp) hr
        simp only [accept, acceptedBy, listenAll_fresh] at this
        rw [if_pos hr, run_bind_of_ok _ (run_update _ w), run_bind_of_ok _ (run_state _)]
        dsimp only
        rw [listenAll_fresh, listenAll_pending]
        generalize w.state.gateway.fresh (first :: others) = fresh at this
        cases fresh with
        | nil => exact hlog _ _ _ this
        | cons l rest => exact hlog _ _ _ this
      · rw [if_neg hr]
        exact hlog none w _ (hstopped w hw (Bool.eq_false_iff.mpr hr))

/-- A request changes nothing that matters, or is accepted. -/
theorem leads_dispatch {languages : List String} {callback : Option Callback}
    {Q : Option TaskId → World σ → Prop} (h : Blind s [.installer] [.discovery] P)
    (hlog : ∀ r w l, Q r w → Q r { w with log := l }) (hidle : ∀ w, P w → Q none w)
    (haccept : ∀ w, P w → requested languages ≠ [] → w.state.loop.isRunning = true →
      Q (acceptedBy w.state (requested languages))
        { w with state := accept w.state (requested languages) callback }) :
    Leads P (dispatch s languages callback) Q E :=
  leads_dispatch_by hlog (fun _ => hidle) (leads_isPresent h) (fun w hw => hidle w hw.1)
    (fun w hw _ => hidle w hw.1) fun w hw => haccept w hw.1

/-- With an installer, and while the loop runs, a request for some language is accepted. -/
theorem leads_dispatch_accepted {languages : List String} {callback : Option Callback}
    {Q : Option TaskId → World σ → Prop} (hlog : ∀ r w l, Q r w → Q r { w with log := l })
    (hP : ∀ w, P w → w.state.gateway.installer = .present ∧ w.state.loop.isRunning = true)
    (hlanguages : requested languages ≠ [])
    (haccept : ∀ w, P w → Q (acceptedBy w.state (requested languages))
      { w with state := accept w.state (requested languages) callback }) :
    Leads P (dispatch s languages callback) Q E := by
  have present : Leads P (isPresent s) (fun b w => b = true ∧ P w) E := by
    intro w hw
    rw [run_isPresent (hP w hw).1]
    exact ⟨rfl, hw⟩
  refine leads_dispatch_by hlog (fun h => absurd h hlanguages) present
    (fun w hw => Bool.noConfusion hw.1) (fun w hw hr => ?_)
    fun w hw _ _ => haccept w hw.2
  rw [(hP w hw.2).2] at hr
  cases hr

/-- A request keeps what neither the search for an installer nor accepting it changes. -/
theorem keeps_dispatch_of {languages : List String} {callback : Option Callback}
    (h : Blind s [.installer] [.discovery] I)
    (haccept : ∀ w, I w → w.state.loop.isRunning = true →
      I { w with state := accept w.state (requested languages) callback }) :
    Keeps I (dispatch s languages callback) :=
  (leads_dispatch h (fun _ => h.log) (fun _ => id) fun w hw _ hr => haccept w hw hr).keeps

end TreeFeatures.Gateway
