import TreeFeatures.Proofs.Install.SingleFlight
import TreeFeatures.Proofs.Reached

/-!
# Nothing is installed without consent

Operations of the controller are called in any order, and jobs are done; nobody requests installs
of the gateway by other means. Settings may be replaced between a request and the install.

* A `Case` is what a call to attach a document finds out before an installer matters;
  `perform_eq_pursue` says that attaching is inquiring and then pursuing what was found out.
* `Operation.Consents`: an operation consents to the install of a language; `in_force` says what that
  comes to. `Operation.NeedsInstaller`: it is a reason to look for an installer.
* `Allowed` is the invariant: tasks have allowed languages only, nobody outside listens, the calls of
  the installer were allowed, and an installer is looked for once, with a reason. `allowed_dispatch`,
  `allowed_pursue` and `allowed_advance` say that everything keeps it.
* `installs_consented`: the result.
-/

namespace TreeFeatures

open Act

variable {σ : Type} (s : Surroundings σ)

/-! ## Inquiring -/

open Enablement

/-- A document, its filetype, and what was found out about it. -/
abbrev Case := Handle × String × Inquiry

/-- Find out about the filetype of the document that a call is about. -/
def inquireAt (document : Option Handle) (filetype : Option String) : Act σ (Option Case) := do
  let d ← Controller.subject s document filetype
  let q ← inquire s d.2
  pure (q.map fun q => (d.1, d.2, q))

/-- What an operation finds out first, if it attaches a document. -/
def inquiry : Operation → Act σ (Option Case)
  | .attach document filetype => inquireAt s document filetype
  | .filetypeEvent document filetype => do
    if (← state).autoAttach then inquireAt s document filetype else pure none
  | _ => pure none

/-- Do for a document what follows from what was found out. -/
def pursue : Option Case → Act σ Unit
  | none => pure ()
  | some (document, filetype, q) => do
    let p ← decideOn s q
    follow s (some (document, filetype, p))

variable {s}

theorem aimAt_eq (document : Option Handle) (filetype : Option String) :
    aimAt s document filetype >>= follow s = inquireAt s document filetype >>= pursue s := by
  simp only [aimAt, inquireAt, plan, bind_assoc, pure_bind]
  refine congrArg _ (funext fun d => congrArg _ (funext fun q => ?_))
  cases q with
  | none => rfl
  | some q => simp only [planFor, bind_assoc, pure_bind, pursue, Option.map_some]

/-- Attaching a document is inquiring and pursuing. -/
theorem perform_eq_pursue {o : Operation} (h : o.Attaches) :
    perform s o = inquiry s o >>= pursue s := by
  rw [perform_eq h]
  cases o with
  | attach document filetype => exact aimAt_eq document filetype
  | filetypeEvent document filetype =>
    simp only [aim, inquiry, bind_assoc]
    refine congrArg _ (funext fun st => ?_)
    split
    · exact aimAt_eq document filetype
    · rfl
  | _ => exact h.elim

variable {I : World σ → Prop}

/-- What was found out about a filetype is so in a world: it is managed, its language has a name, and
the flags are those under the settings in force. -/
structure Enablement.Inquiry.TrueIn (q : Inquiry) (filetype : String) (w : World σ) : Prop where
  known : Assoc.get? w.state.registry filetype = some q.known
  named : q.language ≠ ""
  flags : ∃ x, w.state.settings = some x ∧ q.flags = x.resolve (some q.language)

theorem leads_inquire (h : Blind s setupParts [.editor] I) (filetype : String) :
    Leads I (inquire s filetype) (fun r w => I w ∧ ∀ q ∈ r, q.TrueIn filetype w) I := by
  refine (keeps_prepare h).leads.bind fun _ => leads_state_eq.bind fun st => ?_
  split
  · exact leads_pure fun w hw => ⟨hw.2, nofun⟩
  · next known hk =>
    let Managed (w : World σ) : Prop := I w ∧ Assoc.get? w.state.registry filetype = some known
    have blind : Blind s [.settings] [.editor] Managed :=
      (h.mono (by simp) (by simp)).and (blind_entry (by simp))
    refine Leads.mono (P := Managed) (E := Managed) ?_ (fun w hw => ⟨hw.2, hw.1 ▸ hk⟩)
      (fun _ _ hw => hw) fun _ hw => hw.1
    refine (leads_languageFor_named (blind.mono (by simp) (by simp)) filetype).bind fun r => ?_
    cases r with
    | none => exact leads_pure fun w hw => ⟨hw.1.1, nofun⟩
    | some language =>
      have resolved := leads_resolve_known (s := s) (blind.mono (by simp) (by simp)) (some language)
      intro w hw
      refine (resolved.bind fun flags => leads_pure fun v hv => ⟨hv.1.1, ?_⟩) w hw.1
      rintro q ⟨⟩
      exact ⟨hv.1.2, hw.2 language rfl, hv.2⟩

/-- Inquiring touches what setting up touches, and what it finds out is so. -/
theorem leads_inquiry (h : Blind s setupParts [.editor] I) (o : Operation) :
    Leads I (inquiry s o) (fun r w => I w ∧ ∀ b ∈ r, b.2.2.TrueIn b.2.1 w) I := by
  let Found (r : Option Case) (w : World σ) : Prop := I w ∧ ∀ b ∈ r, b.2.2.TrueIn b.2.1 w
  have nothing : Leads I (pure none) Found I := by
    refine leads_pure fun w hw => ⟨hw, fun b hb => ?_⟩
    cases hb
  have inquired : ∀ d ft, Leads I (inquireAt s d ft) Found I := by
    intro d ft
    refine (keeps_subject (h.mono (by simp) (by simp)) d ft).leads.bind fun d => ?_
    refine (leads_inquire h d.2).bind fun r => leads_pure fun w hw => ⟨hw.1, fun b hb => ?_⟩
    obtain ⟨q, hq, rfl⟩ := Option.map_eq_some_iff.mp hb
    exact hw.2 q hq
  cases o with
  | attach d ft => exact inquired d ft
  | filetypeEvent d ft => exact leads_state_any.bind fun st => (inquired d ft).ite nothing
  | _ => exact nothing

theorem keeps_inquiry (h : Blind s setupParts [.editor] I) (o : Operation) :
    Keeps I (inquiry s o) :=
  ((leads_inquiry h o).weaken fun _ _ hw => hw.1).keeps

/-! ## Consent -/

/-- An operation, called in a world, consents to the install of a language: it installs all managed
languages and this is one of them, or it attaches a document of a managed filetype about which
nothing is known, and the settings in force have the language of the filetype installed. -/
inductive Operation.Consents (s : Surroundings σ) (w : World σ) (l : String) : Operation → Prop
  | managed (languages : List String) (asks : installAll.Asks s w languages) (mem : l ∈ languages) :
      Consents s w l installAll
  | attached (o : Operation) (document : Handle) (filetype : String) (q : Inquiry)
      (found : ((inquiry s o).run w).1 = .ok (some (document, filetype, q)))
      (known : q.known = .unknown) (language : q.language = l)
      (allowed : q.flags.autoInstall = true) : Consents s w l o

/-- An operation, called in a world, is a reason to look for an installer: it installs all managed
languages and one of them has a name, or it attaches a document of a managed filetype, and the
settings in force have the language of the filetype installed. -/
inductive Operation.NeedsInstaller (s : Surroundings σ) (w : World σ) : Operation → Prop
  | managed (languages : List String) (asks : installAll.Asks s w languages) (l : String)
      (mem : l ∈ languages) (named : l ≠ "") : NeedsInstaller s w installAll
  | attached (o : Operation) (document : Handle) (filetype : String) (q : Inquiry)
      (found : ((inquiry s o).run w).1 = .ok (some (document, filetype, q)))
      (allowed : q.flags.autoInstall = true) : NeedsInstaller s w o

/-- What consent comes to: by then some settings are in force, and either they manage the language,
or a filetype is managed about which nothing is known and they have the language installed. -/
theorem Operation.Consents.in_force {w : World σ} {l : String} {o : Operation}
    (h : o.Consents s w l) :
    (∃ x, ((settings s).run ((prepare s).run w).2).2.state.settings = some x ∧ l ∈ x.parsers) ∨
      ∃ filetype x, Assoc.get? ((inquiry s o).run w).2.state.registry filetype = some .unknown ∧
        ((inquiry s o).run w).2.state.settings = some x ∧
        (x.resolve (some l)).autoInstall = true := by
  cases h with
  | managed languages asks mem =>
    obtain ⟨x, hx, rfl⟩ := asks
    have known := leads_settings_known (s := s) .always ((prepare s).run w).2 trivial
    rw [← Prod.eta ((settings s).run ((prepare s).run w).2), hx] at known
    exact .inl ⟨x, known.2, mem⟩
  | attached _ document filetype q found known language allowed =>
    have inquired := leads_inquiry (s := s) .always o w trivial
    rw [← Prod.eta ((inquiry s o).run w), found] at inquired
    obtain ⟨hknown, -, x, hx, hflags⟩ := inquired.2 _ rfl
    refine .inr ⟨filetype, x, known ▸ hknown, hx, ?_⟩
    rw [← language, ← hflags]
    exact allowed

/-- A step consents to the install of a language. -/
def Step.Consents (s : Surroundings σ) (w : World σ) (l : String) : Step σ → Prop
  | .call b o => o.Consents s (w.setRunning b) l
  | _ => False

/-- A step is a reason to look for an installer. -/
def Step.NeedsInstaller (s : Surroundings σ) (w : World σ) : Step σ → Prop
  | .call b o => o.NeedsInstaller s (w.setRunning b)
  | _ => False

/-- Whether a call begins a search for an installer. -/
def Call.searches : Call → Bool
  | .findInstaller | .entryPoints _ => true
  | _ => false

/-- How often an installer was looked for. -/
def searches (trace : List Event) : Nat :=
  trace.countP fun
    | .asked c => c.searches
    | _ => false

/-- How often an installer may still be looked for. -/
def Installer.left : Installer → Nat
  | .unsought _ => 1
  | _ => 0

namespace Install

variable {T T' C C' : String → Prop} {n : Nat} {G G' : Prop} {w : World σ}

/-- Tasks have languages with `T`, nobody outside listens, the languages of all calls of the
installer have `C`, and an installer is looked for at most `n` times, and only for a reason. -/
structure Allowed (T C : String → Prop) (n : Nat) (G : Prop) (w : World σ) : Prop where
  tasks : ∀ (id : TaskId) (t : Task), w.state.loop.tasks[id]? = some t → ∀ l ∈ t.languages, T l
  listeners : ∀ l, ∀ c ∈ w.state.gateway.listeners l, c = .enablement
  calls : ∀ languages ∈ installCalls w.trace, ∀ l ∈ languages, C l
  once : searches w.trace + w.state.gateway.installer.left ≤ n
  reason : searches w.trace ≠ 0 → G

theorem Allowed.mono (h : Allowed T C n G w) (hT : ∀ l, T l → T' l) (hC : ∀ l, C l → C' l)
    (hG : G → G') : Allowed T' C' n G' w where
  tasks id t ht l hl := hT l (h.tasks id t ht l hl)
  listeners := h.listeners
  calls languages hlanguages l hl := hC l (h.calls languages hlanguages l hl)
  once := h.once
  reason hs := hG (h.reason hs)

theorem Allowed.log (h : Allowed T C n G w) (l : List LogEntry) :
    Allowed T C n G { w with log := l } :=
  ⟨h.tasks, h.listeners, h.calls, h.once, h.reason⟩

theorem Allowed.setRunning (h : Allowed T C n G w) (b : Bool) : Allowed T C n G (w.setRunning b) :=
  ⟨h.tasks, h.listeners, h.calls, h.once, h.reason⟩

/-! ## Calls -/

theorem searches_asked (c : Call) (trace : List Event) :
    searches (.asked c :: trace) = searches trace + if c.searches = true then 1 else 0 := by
  rw [searches, List.countP_cons]
  rfl

theorem installCalls_asked {c : Call} (hc : ∀ languages, c ≠ .install languages)
    (trace : List Event) : installCalls (.asked c :: trace) = installCalls trace := by
  cases c <;> first | rfl | exact absurd rfl (hc _)

/-- A call that neither installs nor begins a search does not matter. -/
theorem Allowed.call {c : Call} (h : Allowed T C n G w) (hc : ∀ languages, c ≠ .install languages)
    (hs : c.searches = false) : Allowed T C n G (afterCall s c w) := by
  have same : searches (afterCall s c w).trace = searches w.trace := by
    rw [afterCall, searches_asked, hs]
    rfl
  have called : installCalls (afterCall s c w).trace = installCalls w.trace :=
    installCalls_asked hc _
  exact ⟨h.tasks, h.listeners, called ▸ h.calls, same ▸ h.once, same ▸ h.reason⟩

/-- The beginning of a search. -/
theorem Allowed.search {c : Call} (h : Allowed T C n G w) (hs : c.searches = true) (hG : G) :
    Allowed T C (n + 1) G (afterCall s c w) where
  tasks := h.tasks
  listeners := h.listeners
  calls := by
    rw [afterCall, installCalls_asked fun languages e => by rw [e] at hs; cases hs]
    exact h.calls
  once := by
    have := h.once
    rw [afterCall, searches_asked, if_pos hs]
    dsimp only
    omega
  reason _ := hG

/-- A call of the installer with languages that are allowed. -/
theorem Allowed.install {languages : List String} (h : Allowed T C n G w)
    (hC : ∀ l ∈ languages, C l) : Allowed T C n G (afterCall s (.install languages) w) where
  tasks := h.tasks
  listeners := h.listeners
  calls languages' hl := (List.mem_cons.mp hl).elim (fun e => e ▸ hC) (h.calls languages')
  once := h.once
  reason := h.reason

/-- The parts of the state that do not matter. -/
abbrev otherParts : List Part :=
  [.settings, .registry, .bundled, .initialized, .autoAttach, .features, .waiters, .pending, .errors,
    .isRunning, .waits, .queue]

/-- No change of the other parts and no other call matters. -/
theorem blind_allowed : Blind s otherParts [.features, .options, .editor] (Allowed T C n G) where
  log _ l h := h.log l
  write p hp w st hst h := by
    cases hst with
    | installer | callbacks | tasks => simp at hp
    | _ => exact ⟨h.tasks, h.listeners, h.calls, h.once, h.reason⟩
  ask c hc w h := by
    refine h.call (fun languages e => ?_) ?_
    · simp [e, Call.area] at hc
    · cases c <;> first | rfl | simp [Call.area] at hc

/-! ## Requests -/

/-- A search is under way: it was begun, and its outcome is not known yet. -/
def Searching (T C : String → Prop) (n : Nat) (G : Prop) (w : World σ) : Prop :=
  Allowed T C (n + 1) G w ∧ w.state.gateway.installer.left = 1

theorem Searching.log (w : World σ) (l : List LogEntry) (h : Searching T C n G w) :
    Searching T C n G { w with log := l } :=
  ⟨h.1.log l, h.2⟩

/-- Looking for an installer is one search. -/
theorem leads_find (hG : G) (search : Search) :
    Leads (fun w => Allowed T C n G w ∧ w.state.gateway.installer.left = 1)
      (Discovery.find s search) (fun _ => Searching T C n G) (Searching T C n G) := by
  have begun : ∀ (c : Call) w, c.searches = true →
      Allowed T C n G w ∧ w.state.gateway.installer.left = 1 →
      Searching T C n G (afterCall s c w) :=
    fun c w hc hw => ⟨hw.1.search hc hG, hw.2⟩
  have tried : ∀ c : Call, (∀ languages, c ≠ .install languages) → c.searches = false →
      Keeps (Searching T C n G) (ask s c) :=
    fun c hc hs w hw => ⟨hw.1.call hc hs, hw.2⟩
  cases search with
  | configured => exact leads_ask (fun w _ hw _ => begun _ w rfl hw) fun w _ hw _ => begun _ w rfl hw
  | registered =>
    refine Leads.bind (Q := fun _ => Searching T C n G) ?_ fun _ => leads_pure fun _ hw => hw
    refine (leads_attempt_ask (R := fun _ => Searching T C n G)
      fun w hw => begun _ w rfl hw).bind fun r => ?_
    rcases r with f | names
    · exact (keeps_note Searching.log).leads.bind fun _ => leads_pure fun _ hw => hw
    · exact (Discovery.keeps_firstOf Searching.log (fun _ _ => tried _ nofun rfl)
        (fun _ _ => tried _ nofun rfl) none 0 names).leads

/-- There is a reason to look for an installer, so it may be done once. -/
theorem allowed_isPresent (hG : G) : Keeps (Allowed T C n G) (Gateway.isPresent s) := by
  have remembered : ∀ i : Installer, i.left = 0 →
      Leads (σ := σ) (Searching T C n G) (Gateway.remember i) (fun _ => Allowed T C n G)
        (Allowed T C n G) := by
    intro i hi
    refine leads_update fun w hw => ⟨hw.1.tasks, hw.1.listeners, hw.1.calls, ?_, hw.1.reason⟩
    have := hw.1.once
    rw [hw.2] at this
    exact Nat.le_of_succ_le_succ (hi ▸ this)
  have missing : ∀ cause, Leads (σ := σ) (Searching T C n G) (Gateway.rememberMissing cause)
      (fun _ => Allowed T C n G) (Allowed T C n G) := fun cause =>
    (remembered _ rfl).bind fun _ =>
      Leads.bind (Q := fun _ => Allowed T C n G) (leads_note fun w hw => hw.log _) fun _ =>
        leads_pure fun _ hw => hw
  refine Leads.keeps (leads_state_eq.bind fun st => ?_)
  cases hi : st.gateway.installer with
  | present => exact leads_pure fun _ hw => hw.2
  | missing r => exact leads_pure fun _ hw => hw.2
  | unsought search =>
    refine Leads.mono (P := fun w => Allowed T C n G w ∧ w.state.gateway.installer.left = 1) ?_
      (fun w hw => ⟨hw.2, by rw [← hw.1, hi]; rfl⟩) (fun _ _ hw => hw) fun _ hw => hw
    refine (leads_find hG search).attempt.bind fun r => ?_
    rcases r with f | (_ | _)
    · exact (leads_note fun w hw => hw.log w _).bind fun _ => missing _
    · exact missing none
    · exact (remembered _ rfl).bind fun _ => leads_pure fun _ hw => hw

/-- The enablement has languages installed that are allowed. -/
theorem Allowed.accept {languages : List String} (h : Allowed T C n G w)
    (hT : ∀ l ∈ languages, T l) :
    Allowed T C n G { w with state := Gateway.accept w.state languages (some .enablement) } where
  tasks id t ht l hl := by
    rcases Gateway.accept_task_cases _ _ _ ht with hold | ⟨-, -, rfl⟩
    · exact h.tasks id t hold l hl
    · exact hT l (Gateway.mem_fresh.mp hl).1
  listeners l c hc := by
    rw [Gateway.accept_listeners] at hc
    exact (Gateway.of_mem_listenAll _ _ _ hc).elim id (h.listeners l c)
  calls := h.calls
  once := by
    have : (Gateway.accept w.state languages (some .enablement)).gateway.installer =
        w.state.gateway.installer := by
      rw [Gateway.accept_eq, Gateway.listenAll_eq]
      rfl
    exact this ▸ h.once
  reason := h.reason

/-- A request of the enablement, for languages that are allowed. -/
theorem allowed_dispatch {languages : List String}
    (hT : ∀ l ∈ Gateway.requested languages, T l) (hG : Gateway.requested languages ≠ [] → G) :
    Keeps (Allowed T C n G) (Gateway.dispatch s languages (some .enablement)) := by
  by_cases hr : Gateway.requested languages = []
  · unfold Gateway.dispatch
    rw [hr]
    exact keeps_pure
  · refine Leads.keeps (Gateway.leads_dispatch_by (T := fun _ => Allowed T C n G)
      (Q := fun _ => Allowed T C n G) ?_ (fun _ _ hw => hw) (allowed_isPresent (hG hr)).leads
      (fun _ hw => hw) (fun _ hw _ => hw) fun _ hw _ _ => hw.accept hT)
    exact fun _ w l hw => hw.log l

/-! ## Operations -/

/-- An install is decided on only where nothing is known and the settings allow it. -/
theorem allowed_decideOn (q : Inquiry) (hG : q.flags.autoInstall = true → G) :
    Leads (Allowed T C n G) (decideOn s q)
      (fun p w => Allowed T C n G w ∧ p.language = q.language ∧
        (p.decision = .install → q.known = .unknown ∧ q.flags.autoInstall = true))
      (Allowed T C n G) := by
  have may : Leads (Allowed T C n G) (mayInstall s q.flags)
      (fun use w => Allowed T C n G w ∧ (use = true → q.flags.autoInstall = true))
      (Allowed T C n G) := by
    unfold mayInstall
    split
    · next hauto =>
      exact (allowed_isPresent (hG hauto)).leads.weaken fun _ _ hw => ⟨hw, fun _ => hauto⟩
    · exact leads_pure fun w hw => ⟨hw, nofun⟩
  refine may.bind fun use => leads_state_any.bind fun st => ?_
  have probed : Leads (Allowed T C n G) (probe s q.language q.known) (fun _ => Allowed T C n G)
      (Allowed T C n G) :=
    leads_probe_any (blind_allowed.mono (by simp) (by simp)) _ _
  intro w hw
  refine (probed.bind fun ready => leads_pure fun v hv => ⟨hv, rfl, fun hd => ?_⟩) w hw.1
  obtain ⟨hknown, huse⟩ := Decision.of_eq_install hd
  exact ⟨hknown, hw.2 huse⟩

/-- What follows from an inquiry is allowed, if the inquiry gives consent. -/
theorem allowed_pursue (a : Option Case)
    (hT : ∀ b ∈ a, b.2.2.known = .unknown → b.2.2.flags.autoInstall = true → T b.2.2.language)
    (hG : ∀ b ∈ a, b.2.2.flags.autoInstall = true → G) :
    Keeps (Allowed T C n G) (pursue s a) := by
  cases a with
  | none => exact keeps_pure
  | some b =>
    obtain ⟨document, filetype, q⟩ := b
    refine Leads.keeps ((allowed_decideOn q (hG _ rfl)).bind fun p => ?_)
    refine leads_follow (blind_allowed.mono (by simp) (by simp)) (fun w hw => hw.1) _ fun b hb hd => ?_
    obtain rfl := Option.some.inj hb
    intro w hw
    obtain ⟨hknown, hauto⟩ := hw.2.2 hd
    refine (keeps_installFor (blind_allowed.mono (by simp) (by simp)) ?_ document filetype).leads w
      hw.1
    refine allowed_dispatch (fun l hl => ?_) fun _ => hG _ rfl hauto
    obtain rfl := List.mem_singleton.mp (Gateway.mem_requested.mp hl).1
    exact hw.2.1 ▸ hT _ rfl hknown hauto

/-- An operation that is no request of somebody else is allowed what it consents to. -/
theorem perform_allowed {o : Operation} (ho : ∀ languages callback, o ≠ .request languages callback)
    (hT : ∀ l, o.Consents s w l → T l) (hG : o.NeedsInstaller s w → G) (h : Allowed T C n G w) :
    Allowed T C n G ((perform s o).run w).2 := by
  by_cases hattach : o.Attaches
  · rw [perform_eq_pursue hattach]
    have inquired := (keeps_inquiry (s := s) (blind_allowed.mono (by simp) (by simp)) o).leads_run h
    refine Leads.run (P := fun v => v = w) (inquired.bind fun a => ?_) rfl
    refine fun v hv => (allowed_pursue a ?_ ?_).leads v hv.1
    · rintro ⟨document, filetype, q⟩ rfl hknown hauto
      exact hT _ (.attached o document filetype q (by rw [hv.2]) hknown rfl hauto)
    · rintro ⟨document, filetype, q⟩ rfl hauto
      exact hG (.attached o document filetype q (by rw [hv.2]) hauto)
  · by_cases hall : o = .installAll
    · subst hall
      refine (leads_installAll (keeps_prepare (blind_allowed.mono (by simp) (by simp)))
        (keeps_settings (blind_allowed.mono (by simp) (by simp))) (fun languages asks => ?_) h).run rfl
      refine allowed_dispatch (fun l hl => ?_) fun hne => ?_
      · exact hT l (.managed languages asks (Gateway.mem_requested.mp hl).1)
      · obtain ⟨l, hl⟩ := List.exists_mem_of_ne_nil _ hne
        exact hG (.managed languages asks l (Gateway.mem_requested.mp hl).1
          (Gateway.mem_requested.mp hl).2)
    · refine perform_keeps_by (blind_allowed.mono (by simp) (by simp))
        (keeps_prepare (blind_allowed.mono (by simp) (by simp))) (fun ha => absurd ha hattach)
        (fun _ languages callback asks => ?_) h
      cases o with
      | installAll => exact absurd rfl hall
      | request languages callback => exact absurd rfl (ho languages callback)
      | attach _ _ => exact absurd trivial hattach
      | filetypeEvent _ _ => exact absurd trivial hattach
      | _ => exact asks.elim

/-! ## Jobs -/

/-- A change of the loop that leaves their languages to the tasks. -/
theorem Allowed.onLoop (h : Allowed T C n G w) {f : Loop → Loop}
    (hf : ∀ (id : TaskId) (t : Task), (f w.state.loop).tasks[id]? = some t →
      ∃ u, w.state.loop.tasks[id]? = some u ∧ t.languages = u.languages) :
    Allowed T C n G (w.onLoop f) where
  tasks id t ht := by
    obtain ⟨u, hu, hlanguages⟩ := hf id t ht
    exact hlanguages ▸ h.tasks id u hu
  listeners := h.listeners
  calls := h.calls
  once := h.once
  reason := h.reason

/-- Telling everybody about the end of an install, if that is only the enablement. -/
theorem allowed_announce (success : Bool) (language : String) {E : World σ → Prop} :
    Leads (Allowed T C n G) (announce s success language) (fun _ => Allowed T C n G) E := by
  have told : Leads (Allowed T C n G) (tell s language success .enablement)
      (fun _ => Allowed T C n G) E :=
    leads_tell_enablement (blind_allowed.mono (by simp) (by simp))
      (fun w h => ⟨h.tasks, h.listeners, h.calls, h.once, h.reason⟩)
      fun w h => ⟨h.tasks, h.listeners, h.calls, h.once, h.reason⟩
  let Rest (rest : List Callback) (w : World σ) : Prop :=
    (∀ c ∈ rest, c = .enablement) ∧ Allowed T C n G w
  refine leads_state_eq.bind fun st => ?_
  refine (leads_update (Q := Rest (st.gateway.listeners language)) ?_).bind fun _ =>
    (Leads.forM (J := Rest) fun c rest w hw => ?_).weaken fun _ _ hw => hw.2
  · rintro w ⟨rfl, h⟩
    refine ⟨h.listeners language, h.tasks, fun l c hc => ?_, h.calls, h.once, h.reason⟩
    rw [Gateway.listeners_forget] at hc
    split at hc
    · cases hc
    · exact h.listeners l c hc
  · obtain rfl := hw.1 c List.mem_cons_self
    have others : ∀ c ∈ rest, c = .enablement := fun c hc => hw.1 c (List.mem_cons_of_mem _ hc)
    exact (told.weaken fun _ v hv => ⟨others, hv⟩) w hw.2

/-- A task calls the installer with its languages only, and these are allowed. -/
theorem allowed_advance (id : TaskId) :
    Leads (Allowed C C n G) (advance s id) (fun _ => Allowed C C n G)
      (Allowed (σ := σ) C C n G) := by
  refine leads_advance_of (fun _ h _ => h) fun t => ?_
  have finished : ∀ (w : World σ) p, Allowed C C n G w →
      Allowed C C n G (w.onLoop fun l => l.finish id p) := fun w p h =>
    h.onLoop (Loop.languages_of_phase fun id' => Loop.finish_task w.state.loop id id' p)
  refine leads_advance (C := Allowed C C n G) (fun w h => h.2) (fun _ w h => ?_)
    (fun _ ticket w h => ?_) (fun ticket _ w h => h.1.call nofun rfl) (fun answer => ?_)
    (fun _ w h => ⟨fun _ => finished w _ h.1, fun _ => ?_⟩) fun _ _ w h => h.1
  · exact h.1.install (h.1.tasks id t h.2)
  · exact h.onLoop (Loop.languages_of_phase fun id' => Loop.setPhase_task w.state.loop id id' _)
  · refine leads_conclude (Q := Allowed C C n G) (T := fun _ => Allowed C C n G)
      (blind_allowed.mono (by simp) (by simp))
      (fun w h => ⟨h.tasks, h.listeners, h.calls, h.once, h.reason⟩) (fun b => ?_)
      fun b w h => finished w _ h
    exact Leads.forM (J := fun _ => Allowed C C n G) fun l _ => allowed_announce b l
  · exact finished { w with state :=
      { w.state with gateway := w.state.gateway.unassign t.languages } } _
      ⟨h.1.tasks, h.1.listeners, h.1.calls, h.1.once, h.1.reason⟩

/-! ## Runs -/

/-- What was allowed before, and what a step consents to, is allowed after the step; the calls of the
installer were allowed before it. -/
theorem exec_allowed {x : Step σ}
    (hx : ∀ b languages callback, x ≠ .call b (.request languages callback))
    (h : Allowed C C n G w) :
    Allowed (fun l => C l ∨ x.Consents s w l) C n (G ∨ x.NeedsInstaller s w) (exec s x w) := by
  have more : Allowed (fun l => C l ∨ x.Consents s w l) C n (G ∨ x.NeedsInstaller s w) w :=
    h.mono (fun _ => Or.inl) (fun _ => id) Or.inl
  cases x with
  | call b o =>
    exact exec_call_of (fun v b hv => hv.setRunning b) (perform_allowed
      (fun ls cb e => hx b ls cb (e ▸ rfl)) (fun l hl => .inr hl) (fun hn => .inr hn)
      (more.setRunning b))
  | work j =>
    have worked := leads_work (s := s) (blind_allowed.mono (by simp) (by simp)) (fun _ h => h)
      fun id (_ : j = .task id) => allowed_advance (C := C) (n := n) (G := G) id
    refine exec_work_of (fun v b hv => hv.setRunning b) more ?_
    refine Allowed.mono (T := C) (G := G) ?_ (fun _ => Or.inl) (fun _ => id) Or.inl
    exact worked.run ⟨h.tasks, h.listeners, h.calls, h.once, h.reason⟩
  | answer ticket =>
    exact more.onLoop (f := fun l => l.answer ticket) (Loop.languages_answer _ ticket)
  | cancel id => exact more.onLoop (f := fun l => (l.cancel id).1) (Loop.languages_cancel _ id)
  | wait language =>
    exact more.onLoop (f := fun l => l.beginWait language) fun id t ht => ⟨t, ht, rfl⟩
  | meanwhile f => exact ⟨more.tasks, more.listeners, more.calls, more.once, more.reason⟩

/-- Nobody requests installs of the gateway without the controller. -/
def NoRequest (steps : List (Step σ)) : Prop :=
  ∀ b languages callback, Step.call b (.request languages callback) ∉ steps

/-- Some step of a run, and the world in which it happens, are so related. -/
def AtSomeStep (s : Surroundings σ) (steps : List (Step σ)) (w : World σ)
    (R : World σ → Step σ → Prop) : Prop :=
  ∃ before x, before ++ [x] <+: steps ∧ R (TreeFeatures.run s before w) x

/-- Some step of a run consented to the install of a language. -/
def Consented (s : Surroundings σ) (steps : List (Step σ)) (w : World σ) (l : String) : Prop :=
  AtSomeStep s steps w fun v x => x.Consents s v l

/-- Some step of a run was a reason to look for an installer. -/
def Needed (s : Surroundings σ) (steps : List (Step σ)) (w : World σ) : Prop :=
  AtSomeStep s steps w fun v x => x.NeedsInstaller s v

section

variable {R : World σ → Step σ → Prop} {steps : List (Step σ)}

theorem AtSomeStep.append (h : AtSomeStep s steps w R) (more : List (Step σ)) :
    AtSomeStep s (steps ++ more) w R := by
  obtain ⟨before, x, hx, hR⟩ := h
  exact ⟨before, x, hx.trans (List.prefix_append _ _), hR⟩

theorem AtSomeStep.last {x : Step σ} (h : R (TreeFeatures.run s steps w) x) :
    AtSomeStep s (steps ++ [x]) w R :=
  ⟨steps, x, List.prefix_rfl, h⟩

end

theorem allowed_initial (hw : Initial w) : Allowed T C w.state.gateway.installer.left G w where
  tasks id t ht := by
    rw [hw.state] at ht
    cases ht
  listeners l c hc := by
    rw [hw.state] at hc
    cases hc
  calls := by
    rw [hw.trace]
    nofun
  once := by
    rw [hw.trace]
    exact Nat.le_of_eq (Nat.zero_add _)
  reason := by
    rw [hw.trace]
    exact fun h => absurd rfl h

/-- One more step of a run: the calls of the installer were consented to before it. -/
theorem run_allowed_step {steps : List (Step σ)} {x : Step σ} (hr : NoRequest (steps ++ [x]))
    (h : Allowed (Consented s steps w) (Consented s steps w) n (Needed s steps w)
      (TreeFeatures.run s steps w)) :
    Allowed (Consented s (steps ++ [x]) w) (Consented s steps w) n (Needed s (steps ++ [x]) w)
      (TreeFeatures.run s (steps ++ [x]) w) := by
  rw [run_append]
  refine (exec_allowed (fun b ls cb e => hr b ls cb (by simp [e])) h).mono (fun l hl => ?_)
    (fun _ => id) fun hn => ?_
  · rcases hl with before | now
    · exact before.append [x]
    · exact .last (R := fun v x => x.Consents s v l) now
  · rcases hn with before | now
    · exact before.append [x]
    · exact .last (R := fun v x => x.NeedsInstaller s v) now

theorem run_allowed {steps : List (Step σ)} (hw : Initial w) (hr : NoRequest steps) :
    Allowed (Consented s steps w) (Consented s steps w) w.state.gateway.installer.left
      (Needed s steps w) (TreeFeatures.run s steps w) := by
  induction steps using List.reverseRecOn with
  | nil => exact allowed_initial hw
  | append_singleton steps x ih =>
    have hsteps : NoRequest steps := fun b ls cb hm => hr b ls cb (List.mem_append_left _ hm)
    exact (run_allowed_step hr (ih hsteps)).mono (fun _ => id) (fun _ hl => AtSomeStep.append hl [x])
      id

/-- **Nothing is installed without consent.** In any run of operations of the controller, of jobs and
of changes of the surroundings, in which nobody requests installs without the controller:

* after every step, each language that the installer was called with was consented to by an earlier
  step;
* an installer is looked for once at most, and never if there was one from the beginning;
* at any point at which one was looked for, there had been a reason to. -/
theorem installs_consented {w₀ : World σ} (hw : Initial w₀) {steps : List (Step σ)}
    (hr : NoRequest steps) :
    (∀ before x, before ++ [x] <+: steps →
      ∀ languages ∈ installCalls (TreeFeatures.run s (before ++ [x]) w₀).trace, ∀ l ∈ languages,
        Consented s before w₀ l) ∧
    searches (TreeFeatures.run s steps w₀).trace ≤ 1 ∧
    (w₀.state.gateway.installer = .present →
      searches (TreeFeatures.run s steps w₀).trace = 0) ∧
    (∀ m, m <+: steps → searches (TreeFeatures.run s m w₀).trace ≠ 0 → Needed s m w₀) := by
  have sub : ∀ m, m <+: steps → NoRequest m := fun m hm b ls cb hmem =>
    hr b ls cb (hm.subset hmem)
  have once : searches (TreeFeatures.run s steps w₀).trace ≤ w₀.state.gateway.installer.left :=
    Nat.le_trans (Nat.le_add_right _ _) (run_allowed hw hr).once
  refine ⟨fun before x hx => ?_, Nat.le_trans once ?_, fun hp => ?_, fun m hm => ?_⟩
  · have hbefore : before <+: steps := (List.prefix_append _ _).trans hx
    exact (run_allowed_step (sub _ hx) (run_allowed hw (sub _ hbefore))).calls
  · cases w₀.state.gateway.installer <;> simp [Installer.left]
  · rw [hp] at once
    exact Nat.le_zero.mp once
  · exact (run_allowed hw (sub m hm)).reason

/-- An editor whose installer is still to be found. Lua is managed, and only it is installed when
needed. -/
def findableWorld : World Script.Stage :=
  { openWorld with
    state :=
      { settings := some { parsers := ["lua"], overrides := [("lua", { autoInstall := true })] }
        gateway := { installer := .unsought .configured } }
    outside := { openWorld.outside with installer := { finder := .finds } } }

/-- A document is attached, then the settings are replaced by empty ones, and only then lua is
installed: attaching the document was consent and the reason for the one search. -/
theorem installs_consented_replaced :
    let s := Script.Stage.surroundings
    let before : List (Step Script.Stage) :=
      [.call true (.attach (some (.number 1)) (some "lua")), .call true (.adopt .empty)]
    let w := TreeFeatures.run s (before ++ [.work (.task 0)]) findableWorld
    installCalls w.trace = [["lua"]] ∧ Consented s before findableWorld "lua" ∧
      searches w.trace = 1 ∧ Needed s (before ++ [.work (.task 0)]) findableWorld := by
  intro s before w
  have hw : Initial findableWorld := ⟨rfl, rfl⟩
  have hr : NoRequest (before ++ [.work (.task 0)]) := fun b ls cb => by simp [before]
  have calls : installCalls w.trace = [["lua"]] := by decide +kernel
  have sought : searches w.trace = 1 := by decide +kernel
  obtain ⟨consented, -, -, needed⟩ := installs_consented (s := s) hw hr
  refine ⟨calls, ?_, sought, needed _ List.prefix_rfl ?_⟩
  · refine consented before _ List.prefix_rfl ["lua"] ?_ "lua" List.mem_cons_self
    exact calls ▸ List.mem_cons_self
  · exact fun h => absurd (sought.symm.trans h) nofun

end Install

end TreeFeatures
