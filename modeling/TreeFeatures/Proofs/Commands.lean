import TreeFeatures.Command
import TreeFeatures.Proofs.Enablement.Attachment
import TreeFeatures.Proofs.Enablement.Containment
import TreeFeatures.Proofs.Enablement.Preparation

/-!
# What escapes a command

Without passing failures on, a command ends with a truth value: the failure of its operation is told
to the user, as is a name that does not exist. But nobody watches over the telling. If the editor
cannot show the message, that failure escapes.

* `FailsBy`: how an action can fail, whatever the world; with a rule for each way of building it.
* `Setback`: how a command can fail. It ends right with the one call that failed, or with settings
  that cannot be loaded. `failsBy_perform` goes through the commands.
* `Due`: the message that is due to the user, and the world in which it is.
* **`execute_escapes_iff`**: the result. `execute_escapes`: a name that does not exist.
-/

namespace TreeFeatures

open Act

variable {σ α β : Type}

/-! ## Actions that fail -/

namespace Act

/-- In whatever world, an action fails in no other way than a relation tells: with which fault, and
in which world. -/
def FailsBy (R : Fault → World σ → Prop) (a : Act σ α) : Prop :=
  ∀ w f v, a.run w = (.error f, v) → R f v

variable {R : Fault → World σ → Prop}

theorem FailsBy.bind {a : Act σ α} {g : α → Act σ β} (ha : FailsBy R a)
    (hg : ∀ x, FailsBy R (g x)) : FailsBy R (a >>= g) := by
  intro w f v h
  rw [run_bind] at h
  rcases hr : a.run w with ⟨f' | x, u⟩
  · rw [hr] at h
    cases h
    exact ha w f v hr
  · rw [hr] at h
    exact hg x u f v h

/-- An action that cannot fail. -/
theorem failsBy_of_leads {a : Act σ α}
    (h : Leads (fun _ => True) a (fun _ _ => True) fun _ => False) : FailsBy R a := by
  intro w f v hr
  have contained := h w trivial
  rw [hr] at contained
  exact contained.elim

theorem failsBy_pure {x : α} : FailsBy R (pure x) :=
  failsBy_of_leads (leads_pure fun _ _ => trivial)

theorem failsBy_state : FailsBy R (state (σ := σ)) := failsBy_of_leads leads_state_any

theorem failsBy_ask {s : Surroundings σ} {c : Call}
    (h : ∀ w f, (s.reply c w.outside).1 = .error f → R f (afterCall s c w)) :
    FailsBy R (ask s c) := by
  intro w f v hr
  rw [run_ask] at hr
  obtain ⟨hf, rfl⟩ := Prod.mk.inj hr
  exact h w f hf

end Act

/-! ## How commands fail -/

namespace Command

variable {s : Surroundings σ} {c : Command}

/-- The calls that a command cannot do without. -/
inductive Needs : Command → Call → Prop
  | document {c : Command} (h : c ≠ ensureInstalled) : Needs c .currentDocument
  | filetype {c : Command} (h : c = start ∨ c = toggle ∨ c = attach) (d : Handle) :
      Needs c (.filetypeOf d)
  | news (outcome : Controller.Toggled) :
      Needs toggle (.notify ("ts-enable " ++ outcome.text) .info)

/-- Whether a command goes by the settings. -/
def NeedsSettings (c : Command) : Prop := c ≠ stop ∧ c ≠ detach

/-- How a command fails: a call that it needs failed last, or there are no settings to go by. -/
inductive Setback (s : Surroundings σ) (c : Command) : Fault → World σ → Prop
  | call {needed : Call} {u : World σ} {f : Fault} (h : c.Needs needed)
      (hf : (s.reply needed u.outside).1 = .error f) : Setback s c f (afterCall s needed u)
  | settings {u : World σ} {f : Fault} (h : c.NeedsSettings) (hf : Enablement.Unloadable s u f) :
      Setback s c f (Enablement.looked s u)

theorem failsBy_needs {needed : Call} (h : c.Needs needed) :
    FailsBy (Setback s c) (ask s needed) :=
  failsBy_ask fun _ _ hf => .call h hf

theorem failsBy_documentOr (h : c ≠ ensureInstalled) (document : Option Handle) :
    FailsBy (Setback s c) (Controller.documentOr s document) := by
  cases document with
  | none => exact failsBy_needs (.document h)
  | some d => exact failsBy_pure

theorem failsBy_filetypeOr (h : c = start ∨ c = toggle ∨ c = attach) (d : Handle)
    (filetype : Option String) : FailsBy (Setback s c) (Controller.filetypeOr s d filetype) := by
  cases filetype with
  | none => exact failsBy_needs (.filetype h d)
  | some ft => exact failsBy_pure

/-- The document that a call is about and its filetype. -/
theorem failsBy_subject (h : c = start ∨ c = toggle ∨ c = attach) (document : Option Handle)
    (filetype : Option String) :
    FailsBy (Setback s c) (Controller.subject s document filetype) := by
  have needed : c ≠ ensureInstalled := by rcases h with rfl | rfl | rfl <;> decide
  refine (failsBy_documentOr needed document).bind fun d => ?_
  exact (failsBy_filetypeOr h d filetype).bind fun _ => failsBy_pure

/-- Asking for the settings fails if they cannot be loaded. -/
theorem failsBy_settings (h : c.NeedsSettings) :
    FailsBy (Setback s c) (Enablement.settings s) := by
  intro w f v hr
  rcases Enablement.inForce_or_unloadable s w with ⟨x, hx⟩ | ⟨f', hf⟩
  · obtain ⟨log, hx⟩ := Enablement.run_settings_of_inForce hx
    rw [hx] at hr
    cases hr
  · rw [Enablement.run_settings_of_unloadable hf] at hr
    cases hr
    exact .settings h hf

theorem failsBy_resolve (h : c.NeedsSettings) (language : Option String) :
    FailsBy (Setback s c) (Enablement.resolve s language) :=
  (failsBy_settings h).bind fun _ => failsBy_pure

/-- Setting up fails if the settings cannot be loaded. -/
theorem failsBy_prepare (h : c.NeedsSettings) : FailsBy (Setback s c) (Enablement.prepare s) := by
  intro w f v hr
  cases hi : w.state.initialized with
  | true =>
    rw [Enablement.run_prepare_of_initialized hi] at hr
    cases hr
  | false =>
    rcases Enablement.inForce_or_unloadable s w with ⟨x, hx⟩ | ⟨f', hf⟩
    · have set := (Enablement.run_prepare_of_inForce hi hx).1
      rw [hr] at set
      cases set
    · have unloadable : Enablement.Unloadable s (Enablement.marked w) f' := hf
      rw [Enablement.run_prepare_of_unloadable hi hf] at hr
      cases hr
      exact .settings h unloadable

/-- Showing features does not fail. -/
theorem failsBy_show (document : Handle) (language : String) (flags : Flags) :
    FailsBy (Setback s c) (Features.start s document language flags) := by
  intro w f v hr
  have shown := Enablement.run_start (s := s) document language flags w
  rw [hr] at shown
  cases shown

/-- A request for installs does not fail. -/
theorem leads_dispatch_contained (languages : List String) (callback : Option Callback) :
    Leads (fun _ => True) (Gateway.dispatch s languages callback) (fun _ _ => True)
      fun _ => False :=
  Gateway.leads_dispatch (Q := fun _ _ => True) .always (fun _ _ _ _ => trivial)
    (fun _ _ => trivial) fun _ _ _ _ => trivial

/-- Finding out about a filetype fails if the settings cannot be loaded. -/
theorem failsBy_inquire (h : c.NeedsSettings) (filetype : String) :
    FailsBy (Setback s c) (Enablement.inquire s filetype) := by
  refine (failsBy_prepare h).bind fun _ => failsBy_state.bind fun st => ?_
  cases Assoc.get? st.registry filetype with
  | none => exact failsBy_pure
  | some known =>
    refine FailsBy.bind (failsBy_of_leads ?_) fun language => ?_
    · exact (Enablement.leads_languageFor_named .always filetype).weaken fun _ _ _ => trivial
    · cases language with
      | none => exact failsBy_pure
      | some language => exact (failsBy_resolve h _).bind fun _ => failsBy_pure

/-- Deciding does not fail. -/
theorem failsBy_planFor (q : Option Enablement.Inquiry) :
    FailsBy (Setback s c) (Enablement.planFor s q) := by
  cases q with
  | none => exact failsBy_pure
  | some q =>
    refine FailsBy.bind (failsBy_of_leads ?_) fun _ => failsBy_pure
    exact (Enablement.leads_decideOn .always q).weaken fun _ _ _ => trivial

/-- Attaching a document fails if the settings cannot be loaded. -/
theorem failsBy_attach (h : c.NeedsSettings) (document : Handle) (filetype : String) :
    FailsBy (Setback s c) (Enablement.attach s document filetype) := by
  refine FailsBy.bind ?_ fun p => failsBy_of_leads ?_
  · exact (failsBy_inquire h filetype).bind failsBy_planFor
  · refine Enablement.leads_carryOut .always (fun _ _ => trivial) document filetype p fun q _ _ => ?_
    exact Enablement.leads_installFor_of .always (leads_dispatch_contained _ _) document filetype

/-- Hiding the features of the current document fails if it cannot be told. -/
theorem failsBy_stop (h : c ≠ ensureInstalled) :
    FailsBy (Setback s c) (Controller.stop s none) :=
  (failsBy_documentOr h none).bind fun d => failsBy_of_leads (Enablement.leads_stop_contained d)

/-- Showing the features of the current document. -/
theorem failsBy_start (h : c = start ∨ c = toggle) :
    FailsBy (Setback s c) (Controller.start s none none none) := by
  have settings : c.NeedsSettings := by rcases h with rfl | rfl <;> exact ⟨by decide, by decide⟩
  refine (failsBy_prepare settings).bind fun _ => ?_
  refine (failsBy_subject (h.imp_right .inl) none none).bind fun d => ?_
  exact (failsBy_resolve settings _).bind fun flags => failsBy_show d.1 d.2 flags

/-- Whatever goes wrong on the way, a command fails only with a setback. -/
theorem failsBy_perform (c : Command) : FailsBy (Setback s c) (perform s c) := by
  cases c with
  | start => exact failsBy_start (.inl rfl)
  | stop => exact failsBy_stop (by decide)
  | toggle =>
    have switched : FailsBy (Setback s toggle) (Controller.switch s) := by
      refine FailsBy.bind ?_ fun active => ?_
      · exact (failsBy_documentOr (by decide) none).bind fun d =>
          failsBy_state.bind fun st => failsBy_pure
      · cases active with
        | true => exact (failsBy_stop (by decide)).bind fun _ => failsBy_pure
        | false => exact (failsBy_start (.inr rfl)).bind fun _ => failsBy_pure
    refine FailsBy.bind (switched.bind fun outcome => ?_) fun _ => failsBy_pure
    exact (failsBy_needs (.news outcome)).bind fun _ => failsBy_pure
  | attach =>
    refine FailsBy.bind ?_ fun _ => failsBy_pure
    refine (failsBy_subject (.inr (.inr rfl)) none none).bind fun d => ?_
    exact failsBy_attach ⟨by decide, by decide⟩ d.1 d.2
  | detach =>
    refine FailsBy.bind (failsBy_of_leads ?_) fun _ => failsBy_stop (by decide)
    exact leads_update fun _ _ => trivial
  | ensureInstalled =>
    have settings : NeedsSettings ensureInstalled := ⟨by decide, by decide⟩
    refine FailsBy.bind ?_ fun _ => failsBy_pure
    refine (failsBy_prepare settings).bind fun _ => (failsBy_settings settings).bind fun x => ?_
    exact failsBy_of_leads (leads_dispatch_contained x.parsers _)

/-! ## Messages to the user -/

theorem ofName?_eq_some_iff {name : String} {c : Command} :
    ofName? name = some c ↔ c.name = name := by
  constructor
  · intro h
    have found := List.find?_some h
    simpa using found
  · rintro rfl
    cases c <;> decide

theorem ofName?_eq_none_iff {name : String} :
    ofName? name = none ↔ ∀ c : Command, c.name ≠ name := by
  constructor
  · intro h c hc
    rw [ofName?_eq_some_iff.mpr hc] at h
    cases h
  · intro h
    cases hc : ofName? name with
    | none => rfl
    | some c => exact absurd (ofName?_eq_some_iff.mp hc) (h c)

/-- A message is due to the user, in some world: after a text that is no command, or after the
operation of a command failed. -/
inductive Due (s : Surroundings σ) (text : String) (w : World σ) :
    World σ → String → Level → Prop
  | unknown (h : ∀ c : Command, c.name ≠ trimmed text) :
      Due s text w w (unknownMessage (trimmed text)) .warning
  | failed {c : Command} {f : Fault} {u : World σ} (hc : c.name = trimmed text)
      (h : (perform s c).run w = (.error f, u)) :
      Due s text w u (failedMessage (trimmed text)) .error

/-- What a command answers that could not do its work: false, if the user could be told. -/
def told (s : Surroundings σ) (message : String) (level : Level) (u : World σ) : Except Fault Bool :=
  (s.reply (.notify message level) u.outside).1.map fun _ => false

/-- The world once the user was told, with an entry of the log about it. -/
def afterTelling (s : Surroundings σ) (message : String) (level : Level) (entry : LogEntry)
    (u : World σ) : World σ :=
  { afterCall s (.notify message level) u with log := entry :: u.log }

theorem told_eq_error_iff {message : String} {level : Level} {u : World σ} {f : Fault} :
    told s message level u = .error f ↔ (s.reply (.notify message level) u.outside).1 = .error f := by
  unfold told
  cases (s.reply (.notify message level) u.outside).1 <;> simp [Except.map]

theorem told_eq_ok_iff {message : String} {level : Level} {u : World σ} {b : Bool} :
    told s message level u = .ok b ↔
      b = false ∧ (s.reply (.notify message level) u.outside).1 = .ok () := by
  unfold told
  cases (s.reply (.notify message level) u.outside).1 <;> simp [Except.map, eq_comm]

theorem run_complain (level : Level) (text message : String) (w : World σ) :
    (complain s level text message).run w =
      (told s message level w, afterTelling s message level ⟨level, .commands, text⟩ w) := by
  have noted : (note level .commands text).run w =
      (.ok (), { w with log := ⟨level, .commands, text⟩ :: w.log }) := rfl
  rw [complain, run_bind_of_ok _ noted, run_bind, run_ask]
  unfold told
  dsimp only
  cases (s.reply (.notify message level) w.outside).1 <;> rfl

theorem execute_of_unknown {text : String} {b : Bool} (h : ∀ c : Command, c.name ≠ trimmed text) :
    execute s text b = refuse s (trimmed text) := by
  simp only [execute, ofName?_eq_none_iff.mpr h]

theorem execute_of_name {text : String} (h : c.name = trimmed text) :
    execute s text false = Act.attempt (perform s c) >>= conclude s (trimmed text) := by
  simp only [execute, ofName?_eq_some_iff.mpr h]
  rfl

/-- What is due is told. The command ends with the answer to that, and in the world after it. -/
theorem Due.run {text message : String} {level : Level} {w u : World σ}
    (h : Due s text w u message level) :
    ∃ entry, (execute s text false).run w =
      (told s message level u, afterTelling s message level entry u) := by
  cases h with
  | unknown hc =>
    rw [execute_of_unknown hc]
    exact ⟨_, run_complain .warning _ _ w⟩
  | @failed c f u hc hr =>
    have attempted : (Act.attempt (perform s c)).run w = (.ok (.error f), u) := by
      rw [run_attempt, hr]
    rw [execute_of_name hc, run_bind_of_ok _ attempted]
    exact ⟨_, run_complain .error _ _ u⟩

/-- Nothing is due once the operation of a command is completed. -/
theorem run_execute_of_completed {text : String} {w v : World σ} (hc : c.name = trimmed text)
    (h : (perform s c).run w = (.ok (), v)) : (execute s text false).run w = (.ok true, v) := by
  have attempted : (Act.attempt (perform s c)).run w = (.ok (.ok ()), v) := by
    rw [run_attempt, h]
  rw [execute_of_name hc, run_bind_of_ok _ attempted]
  rfl

/-- A message is due, or the operation of a command is completed. -/
theorem due_or_completed (s : Surroundings σ) (text : String) (w : World σ) :
    (∃ u message level, Due s text w u message level) ∨
      ∃ c v, c.name = trimmed text ∧ (perform s c).run w = (.ok (), v) := by
  cases hc : ofName? (trimmed text) with
  | none => exact .inl ⟨w, _, _, .unknown (ofName?_eq_none_iff.mp hc)⟩
  | some c =>
    have named := ofName?_eq_some_iff.mp hc
    rcases hr : (perform s c).run w with ⟨f | _, v⟩
    · exact .inl ⟨v, _, _, .failed named hr⟩
    · exact .inr ⟨c, v, named, hr⟩

/-! ## The result -/

/-- **What escapes a command.** Run any text as a command, without passing failures on, in any world
and whatever calls fail.

* A failure escapes exactly if a message is due to the user and cannot be shown, and it is that one.
* Otherwise there is a truth value: true exactly if the text without the blanks around it is the name
  of a command whose operation is completed, and else false.
* Where a message is due, the world is the one it was due in, but for the call that shows it.
* So if the text is no command nothing changes in the program, and no option of the editor.
* A command fails only with one of the few calls that it needs, or for want of settings. -/
theorem execute_escapes_iff (s : Surroundings σ) (text : String) (w : World σ) :
    let ended := (execute s text false).run w
    (∀ f, ended.1 = .error f ↔ ∃ u message level, Due s text w u message level ∧
      (s.reply (.notify message level) u.outside).1 = .error f) ∧
    (ended.1 = .ok true ↔ ∃ c, c.name = trimmed text ∧ ((perform s c).run w).1 = .ok ()) ∧
    (ended.1 = .ok false ↔ ∃ u message level, Due s text w u message level ∧
      (s.reply (.notify message level) u.outside).1 = .ok ()) ∧
    (∀ u message level, Due s text w u message level → ended.2.state = u.state ∧
      ended.2.trace = .asked (.notify message level) :: u.trace) ∧
    ((∀ c : Command, c.name ≠ trimmed text) → ended.2.state = w.state ∧
      ended.2.trace = .asked (.notify (unknownMessage (trimmed text)) .warning) :: w.trace ∧
      ∀ value, Framed s value → value ended.2.outside = value w.outside) ∧
    ∀ c f u, (perform s c).run w = (.error f, u) → Setback s c f u := by
  intro ended
  have of_due : ∀ {u message level}, Due s text w u message level →
      ∃ entry, ended = (told s message level u, afterTelling s message level entry u) := Due.run
  have of_completed : ∀ {c v}, c.name = trimmed text → (perform s c).run w = (.ok (), v) →
      ended = (.ok true, v) := run_execute_of_completed
  refine ⟨fun f => ⟨fun hf => ?_, ?_⟩, ⟨fun ht => ?_, ?_⟩, ⟨fun hf => ?_, ?_⟩, ?_, ?_, ?_⟩
  · rcases due_or_completed s text w with ⟨u, message, level, hdue⟩ | ⟨c, v, hc, hr⟩
    · obtain ⟨entry, he⟩ := of_due hdue
      rw [he] at hf
      exact ⟨u, message, level, hdue, told_eq_error_iff.mp hf⟩
    · rw [of_completed hc hr] at hf
      cases hf
  · rintro ⟨u, message, level, hdue, hf⟩
    obtain ⟨entry, he⟩ := of_due hdue
    rw [he]
    exact told_eq_error_iff.mpr hf
  · rcases due_or_completed s text w with ⟨u, message, level, hdue⟩ | ⟨c, v, hc, hr⟩
    · obtain ⟨entry, he⟩ := of_due hdue
      rw [he] at ht
      cases (told_eq_ok_iff.mp ht).1
    · exact ⟨c, hc, congrArg Prod.fst hr⟩
  · rintro ⟨c, hc, hr⟩
    exact congrArg Prod.fst (of_completed hc (Prod.ext hr rfl))
  · rcases due_or_completed s text w with ⟨u, message, level, hdue⟩ | ⟨c, v, hc, hr⟩
    · obtain ⟨entry, he⟩ := of_due hdue
      rw [he] at hf
      exact ⟨u, message, level, hdue, (told_eq_ok_iff.mp hf).2⟩
    · rw [of_completed hc hr] at hf
      cases hf
  · rintro ⟨u, message, level, hdue, hok⟩
    obtain ⟨entry, he⟩ := of_due hdue
    rw [he]
    exact told_eq_ok_iff.mpr ⟨rfl, hok⟩
  · intro u message level hdue
    obtain ⟨entry, he⟩ := of_due hdue
    rw [he]
    exact ⟨rfl, rfl⟩
  · intro hunknown
    obtain ⟨entry, he⟩ := of_due (.unknown hunknown)
    rw [he]
    refine ⟨rfl, rfl, fun value framed => funext fun o => ?_⟩
    exact framed (.notify (unknownMessage (trimmed text)) .warning) w.outside o nofun
  · exact fun c f u hr => failsBy_perform c w f u hr

/-- An editor with a document of lua that cannot show messages. -/
def muteEditor : Surroundings Unit where
  reply
    | .currentDocument, x => (.ok (.number 1), x)
    | .filetypeOf _, x => (.ok "lua", x)
    | .notify _ _, x => (.error (.external "no screen"), x)
    | c, x => (Surroundings.outOfReach Unit).reply c x
  machine _ := .empty

/-- The failure to tell the user escapes, be it about a name that does not exist or about a command
that was to show the features of the document, and did. -/
theorem execute_escapes :
    let w := Enablement.freshWorld
    Initial w ∧ ((execute muteEditor "bogus" false).run w).1 = .error (.external "no screen") ∧
      ((execute muteEditor "toggle" false).run w).1 = .error (.external "no screen") ∧
      ((execute muteEditor "toggle" false).run w).2.state.features.isActive (.number 1) = true := by
  intro w
  exact ⟨⟨rfl, rfl⟩, rfl, rfl, rfl⟩

end Command

end TreeFeatures
