import TreeFeatures.Proofs.Enablement.Evidence

/-!
# How the registry evolves

Setting up brings in the filetypes, and nothing is known about any of them. From then on filetypes
neither come nor go, and what is known about one is never lost: an entry may become available while a
document attaches, and only the end of an install makes one unavailable or takes that back.

* `Advances`, `Promotes`: what may become of an entry at all, and while no install ends.
  `Registry.Evolves` is the same for all entries of a registry.
* `exec_call_entries`, `exec_work_entries`: the rules for a step that sets entries;
  `exec_call_registry` and `exec_work_registry` are the cases of them for a property of the registry.
* `installed_evolves`: the end of an install advances entries.
* `exec_work_settles`: what a job makes of the registry is what the ends of installs make of it that
  the enablement is told about.
* `registry_evolves`: the result.
-/

namespace TreeFeatures

/-! ## Entries -/

/-- What may become of an entry. Nothing leads back to `unknown`, and nothing away from
`available`. -/
inductive Availability.Advances : Availability → Availability → Prop where
  | stay (a : Availability) : Advances a a
  | find : Advances .unknown .available
  | condemn : Advances .unknown .unavailable
  | rescue : Advances .unavailable .available

/-- What may become of an entry while no install ends. -/
inductive Availability.Promotes : Availability → Availability → Prop where
  | stay (a : Availability) : Promotes a a
  | find : Promotes .unknown .available

open Availability (Advances Promotes)

namespace Availability

theorem Advances.trans {a b c : Availability} (h : Advances a b) (h' : Advances b c) :
    Advances a c := by
  cases h with
  | stay => exact h'
  | find =>
    cases h'
    exact .find
  | condemn =>
    cases h' with
    | stay => exact .condemn
    | rescue => exact .find
  | rescue =>
    cases h'
    exact .rescue

theorem Promotes.trans {a b c : Availability} (h : Promotes a b) (h' : Promotes b c) :
    Promotes a c := by
  cases h with
  | stay => exact h'
  | find =>
    cases h'
    exact .find

/-- What is recorded at the end of an install advances the entry. -/
theorem Advances.of_recorded {a b : Availability} (hb : b ≠ .unknown)
    (h : a = .available → b = .available) : Advances a b := by
  cases a with
  | unknown =>
    cases b with
    | unknown => exact absurd rfl hb
    | available => exact .find
    | unavailable => exact .condemn
  | available =>
    obtain rfl := h rfl
    exact .stay _
  | unavailable =>
    cases b with
    | unknown => exact absurd rfl hb
    | available => exact .rescue
    | unavailable => exact .stay _

end Availability

/-- A registry has the filetypes of another one, in the same order, and to each entry has happened
what may happen to it. -/
structure Registry.Evolves (m : Availability → Availability → Prop) (r r' : Registry) : Prop where
  keys : Assoc.keys r' = Assoc.keys r
  entry : ∀ ft a, Assoc.get? r ft = some a → ∃ b, Assoc.get? r' ft = some b ∧ m a b

namespace Registry.Evolves

variable {m : Availability → Availability → Prop} {r r' r'' : Registry}

theorem refl (hm : ∀ a, m a a) (r : Registry) : r.Evolves m r :=
  ⟨rfl, fun _ a ha => ⟨a, ha, hm a⟩⟩

theorem trans (hm : ∀ {a b c}, m a b → m b c → m a c) (h : r.Evolves m r') (h' : r'.Evolves m r'') :
    r.Evolves m r'' := by
  refine ⟨h'.keys.trans h.keys, fun ft a ha => ?_⟩
  obtain ⟨b, hb, hab⟩ := h.entry ft a ha
  obtain ⟨c, hc, hbc⟩ := h'.entry ft b hb
  exact ⟨c, hc, hm hab hbc⟩

/-- Setting the entry of a filetype that has one. -/
theorem set (hm : ∀ a, m a a) {ft : String} {a b : Availability} (ha : Assoc.get? r ft = some a)
    (hab : m a b) : r.Evolves m (r.set ft b) := by
  constructor
  · exact (Assoc.keys_put r ft b).trans (if_pos (Assoc.mem_keys_of_get? ha))
  · intro ft' a' ha'
    unfold Registry.set
    by_cases e : ft = ft'
    · subst e
      obtain rfl := Option.some.inj (ha.symm.trans ha')
      exact ⟨b, Assoc.get?_put_self r ft b, hab⟩
    · exact ⟨a', (Assoc.get?_put_of_ne r b e).trans ha', hm a'⟩

/-- What is available stays so. -/
theorem available (h : r.Evolves Advances r') {ft : String}
    (hft : Assoc.get? r ft = some .available) : Assoc.get? r' ft = some .available := by
  obtain ⟨b, hb, hab⟩ := h.entry ft _ hft
  cases hab
  exact hb

/-- Nothing becomes unknown again. -/
theorem unknown (h : r.Evolves Advances r') {ft : String} {a : Availability}
    (hr : Assoc.get? r ft = some a) (hft : Assoc.get? r' ft = some .unknown) : a = .unknown := by
  obtain ⟨b, hb, hab⟩ := h.entry ft a hr
  obtain rfl := Option.some.inj (hb.symm.trans hft)
  cases hab
  rfl

end Registry.Evolves

namespace Enablement

open Act Install

variable {σ : Type} {s : Surroundings σ}

/-! ## Steps -/

/-- All parts of the state but the registry and whether the program is set up. -/
abbrev otherParts : List Part :=
  [.settings, .bundled, .autoAttach, .features, .waiters, .installer, .pending, .callbacks, .errors,
    .isRunning, .tasks, .waits, .queue]

/-- All kinds of calls. -/
abbrev allAreas : List Area := [.features, .options, .editor, .discovery, .installer, .listener]

variable {I : World σ → Prop}

/-- An operation sets up, and sets entries that are not unavailable, next to things that matter
less. -/
theorem exec_call_entries (h : Blind s otherParts allAreas I) (hprepare : Keeps I (prepare s))
    (hset : ∀ ft known w, I w → Assoc.get? w.state.registry ft = some known →
      known ≠ .unavailable →
      I { w with state := { w.state with registry := w.state.registry.set ft .available } })
    {b : Bool} {o : Operation} {w : World σ} (hw : I w) : I (exec s (.call b o) w) := by
  have running : ∀ v b, I v → I (v.setRunning b) := fun v b hv =>
    h.write .isRunning (by simp) v _ (.isRunning v.state b) hv
  have dispatch : ∀ languages callback, Keeps I (Gateway.dispatch s languages callback) :=
    Gateway.keeps_dispatch (h.mono (by simp) (by simp))
  refine exec_call_of running (perform_keeps_by (h.mono (by simp) (by simp)) hprepare (fun _ => ?_)
    (fun _ languages callback _ => dispatch languages callback) (running w b hw))
  exact keeps_attach_by (h.mono (by simp) (by simp)) hprepare (fun l => dispatch [l] _) hset

/-- A job advances entries at the ends of installs, next to things that matter less. -/
theorem exec_work_entries (h : Blind s otherParts allAreas I)
    (htrace : ∀ e w, I w → I { w with trace := e :: w.trace })
    (hset : ∀ ft known a w, I w → Assoc.get? w.state.registry ft = some known →
      Advances known a →
      I { w with state := { w.state with registry := w.state.registry.set ft a } })
    {j : Job} {w : World σ} (hw : I w) : I (exec s (.work j) w) := by
  have installed : ∀ l success, Keeps I (installed s l success) := by
    intro l success
    refine keeps_installed_managed (h.mono (by simp) (by simp)) (fun ft a w hw hft ha hstay => ?_)
      (fun w hw => h.write .waiters (by simp) w _ (.waiters w.state _) hw) success
    obtain ⟨known, hknown⟩ := Option.isSome_iff_exists.mp hft
    refine hset ft known a w hw hknown (.of_recorded ha fun e => hstay ?_)
    rw [hknown, e]
  have withstands : ∀ l success, Withstands s l success I := fun l success =>
    { blind := h.mono (by simp) (by simp)
      forget := fun w hw => h.write .callbacks (by simp) w _ (.callbacks w.state _) hw
      outside := fun _ w hw => htrace _ w hw
      requested := fun _ _ w hw => htrace _ w hw
      dispatch := fun r _ =>
        Gateway.keeps_dispatch (h.mono (by simp) (by simp)) r.languages r.callback
      enablement := fun _ => (leads_emit fun w hw => htrace _ w hw).bind fun _ =>
        (installed l success).leads.shielded h.log }
  have worked : Leads I (work s j) (fun _ => I) I :=
    leads_work_quiet (h.mono (by simp) (by simp)) withstands j
  refine exec_work_of (fun v b hv => ?_) hw (worked.run ?_)
  · exact h.write .isRunning (by simp) v _ (.isRunning v.state b) hv
  · have h₁ := h.write .queue (by simp) w _ (.queue w.state (w.state.loop.queue.erase j)) hw
    exact h.write .isRunning (by simp) _ _ (.isRunning _ true) h₁

/-! ## Properties of the registry -/

/-- A property of the registry, and of whether the program is set up. -/
abbrev OnRegistry (K : Bool → Registry → Prop) (w : World σ) : Prop :=
  K w.state.initialized w.state.registry

variable {K : Bool → Registry → Prop}

theorem blind_onRegistry {parts : List Part} {areas : List Area} (hr : Part.registry ∉ parts)
    (hi : Part.initialized ∉ parts) : Blind s parts areas (OnRegistry K) := by
  refine Blind.of_state (J := fun st => K st.initialized st.registry) fun p hp st st' hst h => ?_
  cases hst with
  | registry => exact absurd hp hr
  | initialized => exact absurd hp hi
  | _ => exact h

/-- Setting up brings in filetypes, the first time. -/
theorem keeps_prepare_registry {J : Registry → Prop} (hstart : ∀ r, K false r → J r)
    (hseed : ∀ r (answers : List Registry.Answer), J r → J (r.seed answers).registry)
    (hJ : ∀ r, J r → K true r) : Keeps (OnRegistry K) (prepare s) := by
  have prepared : Leads (OnRegistry K) (prepare s)
      (fun fresh w => if fresh then OnRegistry (fun i r => i = true ∧ J r) w
        else OnRegistry K w ∧ w.state.initialized = true)
      (OnRegistry fun i r => i = true ∧ J r) := by
    refine leads_prepare_by (blind_onRegistry (by simp) (by simp)) (fun w hw hi => ?_)
      fun w answers hw => ⟨hw.1, hseed _ answers hw.2⟩
    unfold OnRegistry at hw
    rw [hi] at hw
    exact ⟨rfl, hstart _ hw⟩
  have known : ∀ w : World σ, OnRegistry (fun i r => i = true ∧ J r) w → OnRegistry K w := by
    intro w hw
    obtain ⟨hi, hr⟩ := hw
    unfold OnRegistry
    rw [hi]
    exact hJ _ hr
  refine (prepared.mono (fun _ hw => hw) (fun fresh w hw => ?_) known).keeps
  cases fresh with
  | true => exact known w hw
  | false => exact hw.1

/-- Attaching keeps a property of the registry that setting up and setting entries keep. -/
theorem keeps_attach_registry (hprepare : Keeps (OnRegistry K) (prepare s))
    (hset : ∀ i r ft known, K i r → Assoc.get? r ft = some known → known ≠ .unavailable →
      K i (r.set ft .available)) (document : Handle) (filetype : String) :
    Keeps (OnRegistry K) (attach s document filetype) :=
  keeps_attach_by (blind_onRegistry (by simp) (by simp)) hprepare
    (fun language => Gateway.keeps_dispatch (blind_onRegistry (by simp) (by simp)) [language] _)
    (fun ft known _ => hset _ _ ft known) document filetype

theorem exec_call_registry (hprepare : Keeps (OnRegistry K) (prepare s))
    (hset : ∀ i r ft known, K i r → Assoc.get? r ft = some known → known ≠ .unavailable →
      K i (r.set ft .available)) {b : Bool} {o : Operation} {w : World σ} (hw : OnRegistry K w) :
    OnRegistry K (exec s (.call b o) w) :=
  exec_call_entries (blind_onRegistry (by simp) (by simp)) hprepare
    (fun ft known _ => hset _ _ ft known) hw

theorem exec_work_registry
    (hset : ∀ i r ft a known, K i r → Assoc.get? r ft = some known → Advances known a →
      K i (r.set ft a)) {j : Job} {w : World σ} (hw : OnRegistry K w) :
    OnRegistry K (exec s (.work j) w) :=
  exec_work_entries (blind_onRegistry (by simp) (by simp)) (fun _ _ hv => hv)
    (fun ft known a _ => hset _ _ ft a known) hw

/-! ## Before and while setting up -/

/-- Nothing is registered before the program is set up. -/
def Unprepared (isPrepared : Bool) (r : Registry) : Prop := isPrepared = false → r = []

theorem exec_unprepared (x : Step σ) {w : World σ} (hw : OnRegistry Unprepared w) :
    OnRegistry Unprepared (exec s x w) := by
  -- an entry is only set where there is one
  have set : ∀ i r ft a known, Unprepared i r → Assoc.get? r ft = some known →
      Unprepared i (r.set ft a) := by
    intro i r ft a known hr hknown hi
    rw [hr hi] at hknown
    cases hknown
  cases x with
  | call b o =>
    refine exec_call_registry (keeps_prepare_registry (J := fun _ => True) (fun _ _ => trivial)
      (fun _ _ _ => trivial) fun _ _ => nofun) (fun i r ft known hr hknown _ => ?_) hw
    exact set i r ft _ known hr hknown
  | work j =>
    exact exec_work_registry (fun i r ft a known hr hknown _ => set i r ft a known hr hknown) hw
  | _ => exact hw

/-- The operation that sets up makes no entry unavailable. -/
theorem exec_call_unprepared (b : Bool) (o : Operation) {w : World σ}
    (hw : w.state.registry = []) (ft : String) :
    Assoc.get? (exec s (.call b o) w).state.registry ft ≠ some .unavailable := by
  let Spared (_ : Bool) (r : Registry) : Prop := ∀ ft, Assoc.get? r ft ≠ some .unavailable
  have seeded : ∀ r (answers : List Registry.Answer), Spared true r →
      Spared true (r.seed answers).registry := by
    intro r answers hr ft hft
    rcases Registry.get?_seed_cases hft with hold | hnew
    · exact hr ft hold
    · cases hnew
  have set : ∀ i r ft known, Spared i r → Assoc.get? r ft = some known → known ≠ .unavailable →
      Spared i (r.set ft .available) := by
    intro i r ft known hr _ _ ft' hft'
    unfold Registry.set at hft'
    by_cases e : ft = ft'
    · subst e
      rw [Assoc.get?_put_self] at hft'
      cases hft'
    · rw [Assoc.get?_put_of_ne r _ e] at hft'
      exact hr ft' hft'
  have spared : OnRegistry Spared w := by
    intro ft hft
    rw [hw] at hft
    cases hft
  exact exec_call_registry (K := Spared) (keeps_prepare_registry (J := Spared true)
    (fun _ hr => hr) seeded fun _ hr => hr) set spared ft

/-! ## After setting up -/

/-- The program is set up, and the registry evolves from a given one. -/
def Since (m : Availability → Availability → Prop) (r : Registry) (isPrepared : Bool)
    (r' : Registry) : Prop :=
  isPrepared = true ∧ r.Evolves m r'

variable {r : Registry}

/-- Once the program is set up, setting it up does nothing. -/
theorem keeps_prepare_since {m : Availability → Availability → Prop} :
    Keeps (OnRegistry (Since m r)) (prepare s) :=
  keeps_prepare_registry (J := fun _ => False) (fun _ hr => nomatch hr.1) (fun _ _ hr => hr)
    fun _ hr => hr.elim

/-- An entry that is not unavailable is promoted when it becomes available. -/
theorem Since.promote (i : Bool) (r' : Registry) (ft : String) (known : Availability)
    (h : Since Promotes r i r') (hknown : Assoc.get? r' ft = some known)
    (hspared : known ≠ .unavailable) : Since Promotes r i (r'.set ft .available) := by
  refine ⟨h.1, h.2.trans Promotes.trans (.set .stay hknown ?_)⟩
  cases known with
  | unknown => exact .find
  | available => exact .stay _
  | unavailable => exact absurd rfl hspared

/-- Once the program is set up, operations promote entries. -/
theorem exec_call_since (b : Bool) (o : Operation) {w : World σ}
    (hw : OnRegistry (Since Promotes r) w) :
    OnRegistry (Since Promotes r) (exec s (.call b o) w) :=
  exec_call_registry keeps_prepare_since Since.promote hw

/-- After setting up, the program is set up, even if that failed on the way. -/
theorem initialized_prepare (w : World σ) : ((prepare s).run w).2.state.initialized = true := by
  have prepared : Leads (fun _ => True) (prepare s)
      (fun fresh v => if fresh then OnRegistry (fun i _ => i = true) v
        else True ∧ v.state.initialized = true) (OnRegistry fun i _ => i = true) :=
    leads_prepare_by (blind_onRegistry (by simp) (by simp)) (fun _ _ _ => rfl) fun _ _ hv => hv
  have known : Leads (fun _ => True) (prepare s) (fun _ => OnRegistry fun i _ => i = true)
      (OnRegistry fun i _ => i = true) := by
    refine prepared.weaken fun fresh v hv => ?_
    cases fresh with
    | true => exact hv
    | false => exact hv.2
  exact known.run trivial

/-- Attaching is setting up, and then attaching. -/
theorem run_attach_of_prepare {w u : World σ} {fresh : Bool}
    (h : (prepare s).run w = (.ok fresh, u)) (document : Handle) (filetype : String) :
    (attach s document filetype).run w = (attach s document filetype).run u := by
  have hinit := initialized_prepare (s := s) w
  rw [h] at hinit
  have inquired : (inquire s filetype).run w = (inquire s filetype).run u := by
    rw [inquire, run_bind_of_ok _ h, run_bind_of_ok _ (run_prepare_of_initialized hinit)]
  simp only [attach, plan, run_bind, inquired]

/-- After it has set up the program, attaching promotes entries. -/
theorem attach_promotes (document : Handle) (filetype : String) (w : World σ) :
    ((prepare s).run w).2.state.registry.Evolves Promotes
      ((attach s document filetype).run w).2.state.registry := by
  have hinit := initialized_prepare (s := s) w
  rcases h : (prepare s).run w with ⟨f | fresh, u⟩
  · rw [run_attach_of_unprepared h]
    exact .refl .stay _
  · rw [h] at hinit
    rw [run_attach_of_prepare h]
    exact (keeps_attach_registry keeps_prepare_since Since.promote document filetype u
      ⟨hinit, .refl .stay _⟩).2

/-- Once the program is set up, jobs advance entries. -/
theorem exec_work_since (j : Job) {w : World σ} (hw : OnRegistry (Since Advances r) w) :
    OnRegistry (Since Advances r) (exec s (.work j) w) := by
  refine exec_work_registry (fun i r' ft a known hr hknown hadvances => ?_) hw
  exact ⟨hr.1, hr.2.trans Advances.trans (.set .stay hknown hadvances)⟩

/-- Once the program is set up, a step that is no job promotes entries. -/
theorem exec_promotes (x : Step σ) (hx : ∀ j, x ≠ .work j) {w : World σ}
    (hw : w.state.initialized = true) :
    OnRegistry (Since Promotes w.state.registry) (exec s x w) := by
  have since : OnRegistry (Since Promotes w.state.registry) w := ⟨hw, .refl .stay _⟩
  cases x with
  | call b o => exact exec_call_since b o since
  | work j => exact absurd rfl (hx j)
  | _ => exact since

/-- Once the program is set up, every step advances entries. -/
theorem exec_advances (x : Step σ) {w : World σ} (hw : OnRegistry (Since Advances r) w) :
    OnRegistry (Since Advances r) (exec s x w) := by
  by_cases hx : ∃ j, x = .work j
  · obtain ⟨j, rfl⟩ := hx
    exact exec_work_since j hw
  · obtain ⟨hi, evolves⟩ := exec_promotes (s := s) x (fun j e => hx ⟨j, e⟩) hw.1
    refine ⟨hi, hw.2.trans Advances.trans ⟨evolves.keys, fun ft a ha => ?_⟩⟩
    obtain ⟨b, hb, hab⟩ := evolves.entry ft a ha
    refine ⟨b, hb, ?_⟩
    cases hab with
    | stay => exact .stay a
    | find => exact .find

/-! ## The ends of installs -/

/-- The end of an install advances entries, and brings in no filetype. -/
theorem installed_evolves (l : String) (success : Bool) (w : World σ) :
    w.state.registry.Evolves Advances ((installed s l success).run w).2.state.registry := by
  let Evolved (v : World σ) : Prop := w.state.registry.Evolves Advances v.state.registry
  have kept : Keeps Evolved (installed s l success) := by
    refine keeps_installed_managed (blind_onRegistry (K := fun _ => w.state.registry.Evolves Advances)
      (by simp) (by simp)) (fun ft a v hv hft ha havailable => ?_) (fun _ hv => hv) success
    obtain ⟨known, hknown⟩ := Option.isSome_iff_exists.mp hft
    refine hv.trans Advances.trans (.set .stay hknown (.of_recorded ha fun h => havailable ?_))
    rw [hknown, h]
  exact kept w (.refl .stay _)

/-- The ends of installs that the enablement was told about, newest first. -/
def endings (trace : List Event) : List (String × Bool) :=
  trace.filterMap fun e => match e with
    | .told .enablement l success => some (l, success)
    | _ => none

/-- A registry becomes what the ends of some installs make of it, each in some world, newest
first. -/
inductive Settles (s : Surroundings σ) : List (String × Bool) → Registry → Registry → Prop where
  | rest (r : Registry) : Settles s [] r r
  | ending {ends : List (String × Bool)} {r : Registry} {w : World σ} (l : String)
      (success : Bool) : Settles s ends r w.state.registry →
      Settles s ((l, success) :: ends) r ((installed s l success).run w).2.state.registry

/-- On the way from a world the registry became what the ends of installs made of it that the
enablement was told about. -/
def Settling (s : Surroundings σ) (w v : World σ) : Prop :=
  ∃ ends, endings v.trace = ends ++ endings w.trace ∧
    Settles s ends w.state.registry v.state.registry

theorem blind_settling {parts : List Part} {areas : List Area} (h : Part.registry ∉ parts)
    (w : World σ) : Blind s parts areas (Settling s w) where
  log _ _ hv := hv
  write p hp v st hst hv := by
    cases hst with
    | registry => exact absurd hp h
    | _ => exact hv
  ask _ _ _ hv := hv

/-- The end of an install tells nobody. -/
theorem endings_installed (l : String) (success : Bool) (w : World σ) :
    endings ((installed s l success).run w).2.trace = endings w.trace := by
  have blind : Blind s [.settings, .registry, .features] [.features, .options, .editor]
      fun v => endings v.trace = endings w.trace :=
    ⟨fun _ _ hv => hv, fun _ _ _ _ _ hv => hv, fun _ _ _ hv => hv⟩
  exact keeps_installed blind (fun _ hv => hv) success w rfl

theorem settling_withstands (w : World σ) (l : String) (success : Bool) :
    Withstands s l success (Settling s w) where
  blind := blind_settling (by simp) w
  forget _ hv := hv
  outside _ _ hv := hv
  requested _ _ _ hv := hv
  dispatch r _ := Gateway.keeps_dispatch (blind_settling (by simp) w) r.languages r.callback
  enablement _ := by
    refine (leads_emit (Q := fun v => ∃ ends, endings v.trace = (l, success) :: ends ++
      endings w.trace ∧ Settles s ends w.state.registry v.state.registry) fun v hv => ?_).bind
        fun _ => Leads.shielded (leads_of_run fun v hv => ?_) fun _ _ hv => hv
    · obtain ⟨ends, htrace, settles⟩ := hv
      exact ⟨ends, congrArg (List.cons (l, success)) htrace, settles⟩
    · obtain ⟨ends, htrace, settles⟩ := hv
      refine ⟨(l, success) :: ends, ?_, .ending l success settles⟩
      exact (endings_installed l success v).trans htrace

/-- What a job makes of the registry is what the ends of installs make of it. -/
theorem exec_work_settles (j : Job) (w : World σ) : Settling s w (exec s (.work j) w) := by
  have start : Settling s w w := ⟨[], rfl, .rest _⟩
  have worked : Leads (Settling s w) (work s j) (fun _ => Settling s w) (Settling s w) :=
    leads_work_quiet (blind_settling (by simp) w) (settling_withstands w) j
  exact exec_work_of (I := Settling s w) (fun _ _ hv => hv) start (worked.run start)

/-! ## The result -/

/-- **How the registry evolves.** Before the program is set up nothing is registered. The operation
that sets it up makes no entry unavailable; if that is attaching a document, entries are promoted from
what setting up made of them. Afterwards, in any run,

* the filetypes stay the same, in the same order, and each entry advances: what is available stays
  so, and nothing becomes unknown again;
* a step that is no job changes entries from unknown to available only;
* a job changes the registry by the ends of installs that the enablement is told about in it, one
  after the other, and by nothing else; each of them advances entries. -/
theorem registry_evolves {w₀ : World σ} (hw : Initial w₀) {steps : List (Step σ)} {w : World σ}
    (hrun : run s steps w₀ = w) :
    (w.state.initialized = false → w.state.registry = [] ∧
      ∀ b o ft, Assoc.get? (exec s (.call b o) w).state.registry ft ≠ some .unavailable) ∧
    (∀ document filetype (u : World σ), ((prepare s).run u).2.state.registry.Evolves Promotes
      ((attach s document filetype).run u).2.state.registry) ∧
    (w.state.initialized = true →
      (∀ more v, run s more w = v → v.state.initialized = true ∧
        w.state.registry.Evolves Advances v.state.registry ∧
        ∀ ft a, Assoc.get? w.state.registry ft = some a →
          (a = .available → Assoc.get? v.state.registry ft = some .available) ∧
          (Assoc.get? v.state.registry ft = some .unknown → a = .unknown)) ∧
      (∀ x : Step σ, (∀ j, x ≠ .work j) →
        w.state.registry.Evolves Promotes (exec s x w).state.registry) ∧
      (∀ j, ∃ ends, endings (exec s (.work j) w).trace = ends ++ endings w.trace ∧
        Settles s ends w.state.registry (exec s (.work j) w).state.registry) ∧
      ∀ l success (u : World σ),
        u.state.registry.Evolves Advances ((installed s l success).run u).2.state.registry) := by
  have unprepared : OnRegistry Unprepared w := by
    rw [← hrun]
    refine run_induction (fun x _ _ => exec_unprepared x) fun _ => ?_
    rw [hw.state]
  refine ⟨fun hi => ⟨unprepared hi, fun b o ft => ?_⟩, attach_promotes, fun hi => ⟨?_, ?_, ?_, ?_⟩⟩
  · exact exec_call_unprepared b o (unprepared hi) ft
  · rintro more v rfl
    obtain ⟨hi', evolves⟩ : OnRegistry (Since Advances w.state.registry) (run s more w) :=
      run_induction (fun x _ _ => exec_advances x) ⟨hi, .refl .stay _⟩
    refine ⟨hi', evolves, fun ft a ha => ⟨?_, evolves.unknown ha⟩⟩
    rintro rfl
    exact evolves.available ha
  · intro x hx
    exact (exec_promotes x hx hi).2
  · exact fun j => exec_work_settles j w
  · exact fun l success u => installed_evolves l success u

/-- A document waits for lua. -/
def bareWaiting : World Unit :=
  run bareEditor [.call true (.attach (some (.number 1)) (some "lua"))] bareWorld

/-- The install of lua fails: nothing was known about its filetype, and it becomes unavailable, by
the one end of an install that the enablement is told about. -/
theorem registry_evolves_condemned :
    Assoc.get? bareWaiting.state.registry "lua" = some .unknown ∧
      Assoc.get? (exec bareEditor (.work (.task 0)) bareWaiting).state.registry "lua" =
        some .unavailable ∧
      bareWaiting.state.registry.Evolves Advances
        (exec bareEditor (.work (.task 0)) bareWaiting).state.registry ∧
      Settles bareEditor [("lua", false)] bareWaiting.state.registry
        (exec bareEditor (.work (.task 0)) bareWaiting).state.registry := by
  have initial : Initial bareWorld := ⟨rfl, rfl⟩
  have initialized : bareWaiting.state.initialized = true := by decide +kernel
  have told : endings (exec bareEditor (.work (.task 0)) bareWaiting).trace =
      [("lua", false)] ++ endings bareWaiting.trace := by decide +kernel
  obtain ⟨-, -, after⟩ := registry_evolves (s := bareEditor) initial (w := bareWaiting) rfl
  obtain ⟨runs, -, jobs, -⟩ := after initialized
  obtain ⟨ends, hends, settles⟩ := jobs (.task 0)
  obtain rfl : ends = [("lua", false)] := List.append_cancel_right (hends.symm.trans told)
  have next : run bareEditor [.work (.task 0)] bareWaiting =
      exec bareEditor (.work (.task 0)) bareWaiting := List.foldl_cons ..
  obtain ⟨-, evolves, -⟩ := runs [.work (.task 0)] _ next
  exact ⟨by decide +kernel, by decide +kernel, evolves, settles⟩

end Enablement

end TreeFeatures
