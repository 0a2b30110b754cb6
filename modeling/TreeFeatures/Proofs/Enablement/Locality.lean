import TreeFeatures.Proofs.Enablement.Completion

/-!
# What an install is about

Entries of the registry are kept by filetype, but installs are per language. When an install ends,
there are two ways to find its filetypes: those of the documents that waited for it, which the editor
has mapped to the language one by one, and those that the editor lists for the language. The two
need not agree.

* `Assigned`: documents wait for the language that the editor names for their filetype.
* `keeps_attach_assigned`, `exec_assigned`: attaching documents and all other steps keep that, and
  `Reached.assigned`: it holds in every reached world.
* `entries_changed`: the end of an install changes entries of its own language and of filetypes
  that the editor lists for it, and no other ones. A filetype that is listed for two languages may
  become unavailable by an install of the wrong one (`listed_condemned`).
-/

namespace TreeFeatures

open Act

variable {σ : Type} {s : Surroundings σ} {G : String → Option String}

/-- Whenever the editor names a language for a filetype, it is the same one. -/
def Maps (s : Surroundings σ) (G : String → Option String) : Prop :=
  ∀ ft x l, (s.reply (.languageOf ft) x).1 = .ok (some l) → G ft = some l

/-- Documents wait for the language of their filetype. -/
def Assigned (G : String → Option String) (st : State) : Prop :=
  ∀ l, ∀ y ∈ st.waitersOf l, G y.filetype = some l

namespace Assigned

variable {st : State}

theorem enqueue (h : Assigned G st) {l : String} {y : Waiter} (hy : G y.filetype = some l) :
    Assigned G (st.enqueue l y) := by
  intro l' z hz
  rcases Enablement.of_mem_waitersOf_enqueue hz with hz | ⟨rfl, rfl⟩
  · exact h l' z hz
  · exact hy

theorem dequeue (h : Assigned G st) (l : String) : Assigned G (st.dequeue l) := fun l' z hz =>
  h l' z (Enablement.of_mem_waitersOf_dequeue hz)

end Assigned

theorem blind_assigned {parts : List Part} {areas : List Area} (h : Part.waiters ∉ parts) :
    Blind s parts areas fun w => Assigned G w.state := by
  refine Blind.of_state (J := Assigned G) fun p hp st st' hst ha => ?_
  cases hst with
  | waiters => exact absurd hp h
  | _ => exact ha

namespace Enablement

/-- A document is put on the list of the language of its filetype. -/
theorem keeps_attach_assigned (hG : Maps s G) (document : Handle) (filetype : String) :
    Keeps (fun w => Assigned G w.state) (attach s document filetype) := by
  let Fits (w : World σ) : Prop := Assigned G w.state
  have fits : ∀ {parts areas}, Part.waiters ∉ parts → Blind s parts areas Fits :=
    fun h => blind_assigned h
  have planned : Leads Fits (plan s filetype)
      (fun p w => Fits w ∧ ∀ q ∈ p, G filetype = some q.language) Fits := by
    refine leads_plan_by (J := Fits) (T := fun l => G filetype = some l)
      (keeps_prepare (fits (by simp))).leads (fun w hw => ⟨hw, nofun⟩) (fun known => ?_)
      fun known l hl => ?_
    · exact leads_languageFor_of ((fits (by simp)).and (blind_entry (by simp))) fun w _ =>
        hG filetype w.outside
    · refine (leads_planManaged_for (fits (by simp)) l known).mono (fun w hw => hw.1)
        (fun p w hw => ⟨hw.1, fun q hq => ?_⟩) fun _ hw => hw
      rw [hl, ← Option.some.inj hq, hw.2.language]
  refine Leads.keeps (planned.bind fun p => Leads.mono (P := fun w =>
    (∀ q ∈ p, G filetype = some q.language) ∧ Fits w) (Leads.assume fun hp => ?_)
      (fun _ hw => ⟨hw.2, hw.1⟩) (fun _ _ hw => hw) fun _ hw => hw)
  refine leads_carryOut (fits (by simp)) (fun _ hw => hw) document filetype p fun q hq _ => ?_
  refine (leads_update (Q := Fits) fun w hw => hw.enqueue (hp q hq)).bind fun _ => ?_
  refine (Gateway.keeps_dispatch (I := Fits) (fits (by simp)) _ _).leads.bind fun r => ?_
  cases r with
  | none => exact leads_update fun w hw => hw.dequeue q.language
  | some id => exact leads_pure fun _ hw => hw

end Enablement

/-! ## Runs -/

theorem assigned_unheard (l : String) : Install.Unheard s l fun w => Assigned G w.state where
  blind := blind_assigned (by simp)
  dequeue _ hw := hw.dequeue l
  forget _ hw := hw
  told _ _ _ hw := hw
  requested _ _ _ hw := hw
  dispatch _ _ := Gateway.keeps_dispatch (blind_assigned (by simp)) _ _

/-- Every step keeps it that documents wait for the language of their filetype. -/
theorem exec_assigned (hG : Maps s G) (x : Step σ) {w : World σ} (hw : Assigned G w.state) :
    Assigned G (exec s x w).state := by
  cases x with
  | call b o =>
    refine exec_call_of (I := fun w => Assigned G w.state) (fun _ _ hv => hv) ?_
    exact perform_keeps_by (blind_assigned (by simp))
      (Enablement.keeps_prepare (blind_assigned (by simp)))
      (fun _ => Enablement.keeps_attach_assigned hG)
      (fun _ _ _ _ => Gateway.keeps_dispatch (blind_assigned (by simp)) _ _) hw
  | work j =>
    have worked : Leads (fun w => Assigned G w.state) (Install.work s j)
        (fun _ w => Assigned G w.state) fun w => Assigned G w.state :=
      Install.leads_work_quiet (blind_assigned (by simp))
        (fun l => (assigned_unheard l).withstands) j
    exact exec_work_of (I := fun w => Assigned G w.state) (fun _ _ hv => hv) hw (worked.run hw)
  | _ => exact hw

/-- **Documents wait for the language of their filetype**, also in the middle of a job. -/
theorem Reached.assigned (hG : Maps s G) {w : World σ} (hw : Reached s w) :
    Assigned G w.state := by
  induction hw with
  | start h =>
    rw [h.state]
    exact fun _ _ hy => nomatch hy
  | step x _ ih => exact exec_assigned hG x ih
  | judged languages answer _ ih =>
    have blind : Blind s [.errors] [] fun w => Assigned G w.state := blind_assigned (by simp)
    exact (Install.leads_judge (E := fun w => Assigned G w.state) blind languages answer).run ih
  | told c language success _ ih =>
    exact (((assigned_unheard language).withstands success).leads_tell
      (E := fun w => Assigned G w.state) c).run ih
  | _ => assumption

namespace Enablement

/-- The filetypes that the editor lists for a language at the end of its install. -/
def listed (s : Surroundings σ) (l : String) (success : Bool) (w : World σ) : List String :=
  (s.reply (.filetypes l) (tried s l success w)).1.toOption.getD ([] : List String)

/-- **Which entries the end of an install changes.** Whenever the editor names a language for a
filetype, it is the same one. Then in any world that is reached, the end of the install of a
language changes an entry only if the filetype is managed and has that language, or the editor lists
the filetype for it at that moment. So if the editor lists only filetypes of the language, the
entries of all other filetypes stay as they are. -/
theorem entries_changed (hG : Maps s G) {w : World σ} (hw : Reached s w) (l : String)
    (success : Bool) {v : World σ} (hv : ((installed s l success).run w).2 = v) :
    (∀ ft, Assoc.get? v.state.registry ft ≠ Assoc.get? w.state.registry ft →
      Assoc.get? w.state.registry ft ≠ none ∧ (G ft = some l ∨ ft ∈ listed s l success w)) ∧
    ((∀ ft ∈ listed s l success w, G ft = some l) →
      ∀ ft, G ft ≠ some l →
        Assoc.get? v.state.registry ft = Assoc.get? w.state.registry ft) := by
  have changed : ∀ ft, Assoc.get? v.state.registry ft ≠ Assoc.get? w.state.registry ft →
      Assoc.get? w.state.registry ft ≠ none ∧ (G ft = some l ∨ ft ∈ listed s l success w) := by
    intro ft hft
    rw [← hv, installed_settled s l success w ft] at hft
    split at hft
    · next hc =>
      refine ⟨fun hnone => hft (by rw [hnone]; rfl), ?_⟩
      rcases List.mem_append.mp hc with hwaits | hlisted
      · obtain ⟨y, hy, rfl⟩ := List.mem_map.mp hwaits
        exact .inl (hw.assigned hG l y hy)
      · exact .inr hlisted
    · exact absurd rfl hft
  refine ⟨changed, fun hagree ft hft => Decidable.byContradiction fun hne => hft ?_⟩
  exact (changed ft hne).2.elim id (hagree ft)

/-- An editor that lists typescript for tsx too, and an installer that reports failure. -/
def listingEditor : Surroundings Unit where
  reply
    | .filetypes l, x => (.ok (if l = "tsx" then ["typescriptreact", "typescript"] else [l]), x)
    | .languageOf ft, x => (.ok (some (if ft = "typescriptreact" then "tsx" else ft)), x)
    | c, x => bareEditor.reply c x
  machine := bareEditor.machine

/-- Three languages are managed and installed when needed. -/
def listingWorld : World Unit :=
  .equipped () { parsers := ["tsx", "typescript", "lua"], flags := { autoInstall := true } }

/-- The language of each filetype. -/
def listingLanguage (ft : String) : Option String :=
  some (if ft = "typescriptreact" then "tsx" else ft)

theorem listing_maps : Maps listingEditor listingLanguage := fun _ _ _ h => Except.ok.inj h

/-- A document waits for tsx. -/
def listingWaiting : World Unit :=
  exec listingEditor (.call true (.attach (some (.number 1)) (some "typescriptreact"))) listingWorld

/-- The failed install of tsx leaves lua alone. -/
theorem entries_changed_listing :
    Reached listingEditor listingWaiting ∧
      listingWaiting.state.waitersOf "tsx" = [⟨.number 1, "typescriptreact"⟩] ∧
      let v := ((installed listingEditor "tsx" false).run listingWaiting).2
      Assoc.get? v.state.registry "typescriptreact" = some .unavailable ∧
        Assoc.get? v.state.registry "lua" = Assoc.get? listingWaiting.state.registry "lua" := by
  have reached : Reached listingEditor listingWaiting := .step _ (.start ⟨rfl, rfl⟩)
  refine ⟨reached, by decide +kernel, by decide +kernel, ?_⟩
  obtain ⟨changed, -⟩ := entries_changed listing_maps reached "tsx" false (v := _) rfl
  refine Decidable.byContradiction fun hne => ?_
  have about := (changed "lua" hne).2
  revert about
  decide +kernel

/-- The failed install of tsx makes typescript unavailable, which has a language of its own. -/
theorem listed_condemned :
    Maps listingEditor listingLanguage ∧ Reached listingEditor listingWaiting ∧
      listingLanguage "typescript" = some "typescript" ∧
      Assoc.get? listingWaiting.state.registry "typescript" = some .unknown ∧
      Assoc.get? ((installed listingEditor "tsx" false).run listingWaiting).2.state.registry
        "typescript" = some .unavailable := by
  refine ⟨listing_maps, .step _ (.start ⟨rfl, rfl⟩), ?_, ?_, ?_⟩ <;> decide +kernel

end Enablement

end TreeFeatures
