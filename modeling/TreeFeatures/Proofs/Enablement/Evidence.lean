import TreeFeatures.Proofs.Chronicle
import TreeFeatures.Proofs.Install.Ended
import TreeFeatures.Proofs.Seeding

/-!
# What the registry says is backed

An entry of the registry is about a filetype, what happens is about languages: grammars are
registered, installs end. `Deserved` says what has to have happened for an entry. The filetypes of a
language and the language of a filetype are fixed (`Lists`).

* `Backed` is the invariant for one filetype: its entry is deserved, a document that waits with it
  waits for its language, and there are no entries before the program is set up. `Blank` is the
  invariant while it is being set up.
* `leads_plan_backed`: a plan that starts documents is warranted. `leads_usable`, `leads_judgeAll`:
  what the end of an install makes of the entries is deserved.
* `exec_backed`: every step keeps it.
* `availability_sound`: the result. What is available is bundled or was registered; what is not has
  failed to be installed.
-/

namespace TreeFeatures.Enablement

open Act Install

variable {σ : Type}

/-- What the editor lists does not change, and it can always be told. -/
structure Lists (s : Surroundings σ) (F : String → List String) (G : String → Option String) :
    Prop where
  filetypes : ∀ l x, (s.reply (.filetypes l) x).1 = .ok (F l)
  languageOf : ∀ ft x, (s.reply (.languageOf ft) x).1 = .ok (G ft)

/-- The grammar of a language was registered. -/
def Loaded (l : String) (h : List Moment) : Prop :=
  .answered (.addLanguage l) (.ok (.bool true)) ∈ h

/-- An install of a language was over and had failed, or the grammar could not be registered after
it. -/
def Failed (l : String) (h : List Moment) : Prop :=
  .told .enablement l false ∈ h ∨
    ∃ later earlier r, h = later ++ .told .enablement l true :: earlier ∧
      .answered (.addLanguage l) r ∈ later ∧ r ≠ .ok (.bool true)

/-- What has to have happened for an entry of a filetype. -/
def Deserved (G : String → Option String) (ft : String) (h : List Moment) (st : State) :
    Availability → Prop
  | .unknown => True
  | .available => ∃ l, G ft = some l ∧ (l ∈ st.bundled ∨ Loaded l h)
  | .unavailable => ∃ l, G ft = some l ∧ l ∉ st.bundled ∧ Failed l h

/-- The entry of a filetype is deserved, and what leads to entries is in order. -/
structure Backed (G : String → Option String) (ft : String) (h : List Moment) (st : State) :
    Prop where
  unprepared : st.initialized = false → st.registry = []
  waiting : ∀ l, ∀ y ∈ st.waitersOf l, y.filetype = ft → G ft = some l
  deserved : ∀ a, Assoc.get? st.registry ft = some a → Deserved G ft h st a

/-- The program is being set up, and nothing is known about the filetype. -/
structure Blank (G : String → Option String) (ft : String) (st : State) : Prop where
  initialized : st.initialized = true
  waiting : ∀ l, ∀ y ∈ st.waitersOf l, y.filetype = ft → G ft = some l
  unknown : ∀ a, Assoc.get? st.registry ft = some a → a = .unknown

/-! ## More history -/

variable {F : String → List String} {G : String → Option String} {ft l : String}
  {h : List Moment} {st : State}

theorem Loaded.cons (hl : Loaded l h) (m : Moment) : Loaded l (m :: h) := List.mem_cons_of_mem m hl

theorem Failed.cons (hl : Failed l h) (m : Moment) : Failed l (m :: h) := by
  rcases hl with hl | ⟨later, earlier, r, rfl, hr, hne⟩
  · exact .inl (List.mem_cons_of_mem m hl)
  · exact .inr ⟨m :: later, earlier, r, rfl, List.mem_cons_of_mem m hr, hne⟩

theorem Deserved.cons {a : Availability} (ha : Deserved G ft h st a) (m : Moment) :
    Deserved G ft (m :: h) st a := by
  cases a with
  | unknown => trivial
  | available =>
    obtain ⟨l, hl, hb⟩ := ha
    exact ⟨l, hl, hb.imp_right fun hb => hb.cons m⟩
  | unavailable =>
    obtain ⟨l, hl, hb, hf⟩ := ha
    exact ⟨l, hl, hb, hf.cons m⟩

theorem Backed.cons (hb : Backed G ft h st) (m : Moment) : Backed G ft (m :: h) st :=
  ⟨hb.unprepared, hb.waiting, fun a ha => (hb.deserved a ha).cons m⟩

/-- Once the program is set up and nothing is known, any history will do. -/
theorem Blank.backed (hb : Blank G ft st) (h : List Moment) : Backed G ft h st := by
  refine ⟨fun hi => ?_, hb.waiting, fun a ha => hb.unknown a ha ▸ trivial⟩
  rw [hb.initialized] at hi
  cases hi

/-- A new entry that is deserved. -/
theorem Backed.set (hb : Backed G ft h st) (hi : st.initialized = true) {ft' : String}
    {a : Availability} (ha : ft' = ft → Deserved G ft h st a) :
    Backed G ft h { st with registry := st.registry.set ft' a } := by
  refine ⟨fun hi' => ?_, hb.waiting, fun b hget => ?_⟩
  · rw [show st.initialized = false from hi'] at hi
    cases hi
  · by_cases e : ft' = ft
    · have : Assoc.get? (Assoc.put st.registry ft' a) ft = some b := hget
      rw [e, Assoc.get?_put_self, Option.some.injEq] at this
      exact this ▸ ha e
    · have : Assoc.get? (Assoc.put st.registry ft' a) ft = some b := hget
      rw [Assoc.get?_put_of_ne _ _ e] at this
      exact hb.deserved b this

/-- Documents that wait no more do not matter. -/
theorem Backed.dequeue (hb : Backed G ft h st) (language : String) :
    Backed G ft h (st.dequeue language) :=
  ⟨hb.unprepared, fun l y hy => hb.waiting l y (of_mem_waitersOf_dequeue hy), hb.deserved⟩

/-! ## Setting up -/

variable {s : Surroundings σ} {w : World σ} {K : List Moment → State → Prop} {E : World σ → Prop}

theorem blind_backed {parts : List Part} {areas : List Area} (hregistry : Part.registry ∉ parts)
    (hbundled : Part.bundled ∉ parts) (hinitialized : Part.initialized ∉ parts)
    (hwaiters : Part.waiters ∉ parts) :
    Blind s parts areas (Recorded s h w (Backed G ft)) := by
  refine blind_recorded (fun m _ _ hb => hb.cons m) fun p hp h st st' hst hb => ?_
  cases hst with
  | registry => exact absurd hp hregistry
  | bundled => exact absurd hp hbundled
  | initialized => exact absurd hp hinitialized
  | waiters => exact absurd hp hwaiters
  | _ => exact ⟨hb.unprepared, hb.waiting, hb.deserved⟩

theorem blind_blank : Blind s [.settings, .bundled] [.editor]
    (Recorded s h w fun _ => Blank G ft) := by
  refine blind_recorded (fun _ _ _ hb => hb) fun p hp h st st' hst hb => ?_
  cases hst with
  | settings => exact ⟨hb.initialized, hb.waiting, hb.unknown⟩
  | bundled => exact ⟨hb.initialized, hb.waiting, hb.unknown⟩
  | _ => simp at hp

/-- Setting up brings in nothing that would have to be deserved. -/
theorem leads_prepare_backed :
    Leads (Recorded s h w (Backed G ft)) (prepare s)
      (fun _ => Recorded s h w fun h st => Backed G ft h st ∧ st.initialized = true)
      (Recorded s h w (Backed G ft)) := by
  refine (leads_prepare_by (P := Recorded s h w (Backed G ft))
    (J := Recorded s h w fun _ => Blank G ft) blind_blank (fun v hv hi => ?_)
    fun v answers hv => ?_).mono (fun _ hv => hv) (fun fresh v hv => ?_) fun v hv => ?_
  · refine hv.update fun _ hb => ⟨rfl, hb.waiting, fun a ha => ?_⟩
    rw [hb.unprepared hi] at ha
    cases ha
  · refine hv.update fun _ hb => ⟨hb.initialized, hb.waiting, fun a ha => ?_⟩
    exact (Registry.get?_seed_cases ha).elim (hb.unknown a) id
  · cases fresh with
    | true => exact Recorded.mono hv fun h _ hb => ⟨hb.backed h, hb.initialized⟩
    | false => exact ⟨hv.1.follows, hv.1.holds, hv.2⟩
  · exact hv.mono fun h _ hb => hb.backed h

/-! ## Attaching -/

/-- The grammar of a language counts as registered if the editor answers true. -/
theorem leads_grammarReady (language : String) :
    Leads (Recorded s h w K) (grammarReady s language)
      (fun b => Recorded s h w fun h st => ∃ h' r, h = .answered (.addLanguage language) r :: h' ∧
        K h' st ∧ (b = true ↔ r = .ok (.bool true))) E := by
  refine (leads_attempt_recorded (.addLanguage language)).bind fun r => ?_
  rcases r with f | x
  · refine (leads_note fun v hv => hv.log _).bind fun _ => leads_pure fun v hv => ?_
    exact hv.mono fun h st ⟨h', he, hK⟩ => ⟨h', _, he, hK, by simp⟩
  · cases x with
    | bool b =>
      refine leads_pure fun v hv => hv.mono fun h st ⟨h', he, hK⟩ => ⟨h', _, he, hK, ?_⟩
      cases b <;> simp
    | _ =>
      refine leads_pure fun v hv => hv.mono fun h st ⟨h', he, hK⟩ => ⟨h', _, he, hK, ?_⟩
      simp

/-- The language of a filetype is the one that the editor lists, if it has a name. -/
theorem leads_languageFor_listed {I : World σ → Prop} (hs : Lists s F G)
    (hI : Blind s [] [.editor] I) (filetype : String) :
    Leads I (languageFor s filetype) (fun r w => I w ∧ ∀ l ∈ r, G filetype = some l) E :=
  leads_languageFor_of hI fun w _ _ hl =>
    Except.ok.inj ((hs.languageOf filetype w.outside).symm.trans hl)

/-- A plan that starts the documents of a filetype is warranted: by bundled queries, or by a grammar
that was registered. -/
structure Warranted (G : String → Option String) (ft filetype : String) (h : List Moment)
    (st : State) (p : Plan) : Prop where
  initialized : st.initialized = true
  language : G filetype = some p.language
  usable : filetype = ft → p.decision = .start ∨ p.decision = .fallBack →
    p.language ∈ st.bundled ∨ Loaded p.language h

/-- What is known once a plan was made for a filetype. -/
structure Planned (G : String → Option String) (ft filetype : String) (p : Option Plan)
    (h : List Moment) (st : State) : Prop where
  backed : Backed G ft h st
  warranted : ∀ q ∈ p, Warranted G ft filetype h st q

/-- What is known once a filetype was found in the registry. -/
structure Entered (G : String → Option String) (ft filetype : String) (known : Availability)
    (h : List Moment) (st : State) : Prop where
  backed : Backed G ft h st
  initialized : st.initialized = true
  entry : Assoc.get? st.registry filetype = some known

theorem Entered.cons {filetype : String} {known : Availability}
    (he : Entered G ft filetype known h st) (m : Moment) : Entered G ft filetype known (m :: h) st :=
  ⟨he.backed.cons m, he.initialized, he.entry⟩

theorem blind_entered {filetype : String} {known : Availability} :
    Blind s [.settings, .installer] [.editor, .discovery]
      (Recorded s h w (Entered G ft filetype known)) := by
  refine blind_recorded (fun m _ _ he => he.cons m) fun p hp h st st' hst he => ?_
  obtain ⟨hb, hi, hentry⟩ := he
  cases hst with
  | settings => exact ⟨⟨hb.unprepared, hb.waiting, hb.deserved⟩, hi, hentry⟩
  | installer => exact ⟨⟨hb.unprepared, hb.waiting, hb.deserved⟩, hi, hentry⟩
  | _ => simp at hp

/-- A decision for a filetype rests on its entry, on the probe, or on the bundled queries. -/
theorem Entered.warranted {filetype language : String} {known : Availability}
    (he : Entered G ft filetype known h st) (hG : G filetype = some language) (flags : Flags)
    {ready bundled : Bool} (useInstaller : Bool) (hbundled : bundled = true → language ∈ st.bundled)
    (hready : ready = true → Loaded language h) :
    Warranted G ft filetype h st
      ⟨language, flags, known, Decision.of known ready bundled useInstaller⟩ := by
  refine ⟨he.initialized, hG, fun e hd => ?_⟩
  rcases hd with hd | hd
  · rcases Decision.of_eq_start hd with rfl | ⟨-, hr⟩
    · -- the entry of the filetype was deserved before
      obtain ⟨l, hl, hu⟩ := he.backed.deserved .available (e ▸ he.entry)
      have : l = language := Option.some.inj (hl.symm.trans (e ▸ hG))
      exact this ▸ hu
    · exact .inr (hready hr)
  · exact .inl (hbundled (Decision.of_eq_fallBack hd))

/-- What the probe finds out is only used if nothing is known. -/
theorem leads_probe (hK : ∀ m h st, K h st → K (m :: h) st) (language : String)
    (known : Availability) :
    Leads (Recorded s h w K) (probe s language known)
      (fun ready => Recorded s h w fun h st => K h st ∧ (ready = true → Loaded language h)) E := by
  unfold probe
  split
  · refine (leads_grammarReady language).weaken fun ready v hv => hv.mono ?_
    rintro h st ⟨h', r, rfl, hk, hr⟩
    exact ⟨hK _ _ _ hk, fun hready => hr.mp hready ▸ List.mem_cons_self⟩
  · exact leads_pure fun v hv => hv.mono fun h st hk => ⟨hk, nofun⟩

/-- Planning for a filetype with an entry and a language. -/
theorem leads_planManaged_backed {filetype language : String} (hG : G filetype = some language)
    (known : Availability) :
    Leads (Recorded s h w (Entered G ft filetype known)) (planManaged s language known)
      (fun p => Recorded s h w (Planned G ft filetype p)) (Recorded s h w (Backed G ft)) := by
  have fails : ∀ v : World σ, Recorded s h w (Entered G ft filetype known) v →
      Recorded s h w (Backed G ft) v := fun v hv => hv.mono fun _ _ he => he.backed
  refine Leads.mono (E := Recorded s h w (Entered G ft filetype known)) ?_ (fun _ hv => hv)
    (fun _ _ hv => hv) fails
  refine (keeps_resolve (blind_entered.mono (by simp) (by simp)) _).leads.bind fun flags => ?_
  refine (keeps_mayInstall (blind_entered.mono (by simp) (by simp)) flags).leads.bind fun use => ?_
  refine (leads_state (Q := fun st => Recorded s h w fun h st' => Entered G ft filetype known h st' ∧
    (st.bundled.contains language = true → language ∈ st'.bundled))
    fun v hv => ⟨hv.follows, hv.holds, fun hc => by simpa using hc⟩).bind fun st => ?_
  refine (leads_probe (fun m _ _ hk => ⟨hk.1.cons m, hk.2⟩) language known).bind fun ready => ?_
  refine leads_pure fun v hv => hv.mono fun h st' hk => ⟨hk.1.1.backed, ?_⟩
  rintro q ⟨⟩
  exact hk.1.1.warranted hG flags use hk.1.2 hk.2

theorem leads_plan_backed (hs : Lists s F G) (filetype : String) :
    Leads (Recorded s h w (Backed G ft)) (plan s filetype)
      (fun p => Recorded s h w (Planned G ft filetype p)) (Recorded s h w (Backed G ft)) := by
  have prepared : Blind s [] [.editor]
      (Recorded s h w fun h st => Backed G ft h st ∧ st.initialized = true) :=
    blind_recorded (fun m _ _ hk => ⟨hk.1.cons m, hk.2⟩) (by simp)
  refine leads_plan_by (T := fun language => G filetype = some language) leads_prepare_backed
    (fun v hv => hv.mono fun _ _ hk => ⟨hk.1, nofun⟩) (fun known => ?_) fun known language hG => ?_
  · exact leads_languageFor_listed hs (prepared.and (blind_entry (by simp))) filetype
  · refine (leads_planManaged_backed hG known).mono (fun v hv => ?_) (fun _ _ hv => hv) fun _ hv => hv
    exact ⟨hv.1.follows, hv.1.holds.1, hv.1.holds.2, hv.2⟩

/-- What has to be known before documents of a filetype are started. -/
structure Startable (G : String → Option String) (ft filetype : String) (h : List Moment)
    (st : State) : Prop where
  backed : Backed G ft h st
  initialized : st.initialized = true
  deserved : filetype = ft → Deserved G ft h st .available

/-- The entry of documents that are started is deserved. -/
theorem Startable.enter {filetype : String} (hs : Startable G ft filetype h st) :
    Backed G ft h { st with registry := st.registry.set filetype .available } :=
  hs.backed.set hs.initialized hs.deserved

/-- A plan that starts documents is warranted. -/
theorem Planned.startable {filetype : String} {p : Plan}
    (hp : Planned G ft filetype (some p) h st)
    (hd : p.decision = .start ∨ p.decision = .fallBack) : Startable G ft filetype h st := by
  obtain ⟨hi, hG, hu⟩ := hp.warranted p rfl
  exact ⟨hp.backed, hi, fun e => ⟨p.language, e ▸ hG, hu e hd⟩⟩

/-- A document that waits with the filetype waits for the language of it. -/
theorem keeps_installFor_backed {filetype language : String} (hG : G filetype = some language)
    (document : Handle) :
    Keeps (Recorded s h w (Backed G ft)) (installFor s document filetype language) := by
  have dispatch : Keeps (Recorded s h w (Backed G ft))
      (Gateway.dispatch s [language] (some .enablement)) :=
    Gateway.keeps_dispatch (blind_backed (by simp) (by simp) (by simp) (by simp)) _ _
  refine Keeps.bind (keeps_update fun v hv => hv.update fun h hb => ?_) fun _ =>
    dispatch.bind fun r => ?_
  · refine ⟨hb.unprepared, fun l y hy hft => ?_, hb.deserved⟩
    rcases of_mem_waitersOf_enqueue hy with hy | ⟨rfl, rfl⟩
    · exact hb.waiting l y hy hft
    · exact hft ▸ hG
  · cases r with
    | some id => exact keeps_pure
    | none => exact keeps_update fun v hv => hv.update fun h hb => hb.dequeue language

/-- Attaching a document keeps what the registry says backed. -/
theorem keeps_attach_backed (hs : Lists s F G) (document : Handle) (filetype : String) :
    Keeps (Recorded s h w (Backed G ft)) (attach s document filetype) := by
  refine Leads.keeps ((leads_plan_backed hs filetype).bind fun p => ?_)
  have backed : ∀ v : World σ, Recorded s h w (Planned G ft filetype p) v →
      Recorded s h w (Backed G ft) v := fun v hv => hv.mono fun _ _ hp => hp.backed
  refine leads_carryOut_by (blind_backed (by simp) (by simp) (by simp) (by simp))
    (fun _ _ hv => hv.log _) backed document filetype p (fun q hq hd v hv => ?_) fun q hq _ v hv => ?_
  · obtain rfl := Option.mem_def.mp hq
    exact hv.update fun _ hp => (hp.startable hd).enter
  · exact (keeps_installFor_backed (hv.holds.warranted q hq).language document).leads v (backed v hv)

/-! ## The end of an install -/

/-- The entry that an install ends with. -/
def verdict (isAvailable : Bool) : Availability := if isAvailable then .available else .unavailable

/-- What is known once the install of a language is judged: the filetype, if it is one of the
language, deserves the entry. -/
structure Judged (G : String → Option String) (ft language : String) (isAvailable : Bool)
    (h : List Moment) (st : State) : Prop where
  backed : Backed G ft h st
  deserved : G ft = some language → Deserved G ft h st (verdict isAvailable)

theorem Judged.cons {language : String} {isAvailable : Bool}
    (hj : Judged G ft language isAvailable h st) (m : Moment) :
    Judged G ft language isAvailable (m :: h) st :=
  ⟨hj.backed.cons m, fun hG => (hj.deserved hG).cons m⟩

/-- The enablement was told about an install, and nothing else happened since. -/
def Told (G : String → Option String) (ft language : String) (success : Bool) (h : List Moment)
    (st : State) : Prop :=
  ∃ h', h = .told .enablement language success :: h' ∧ Backed G ft h' st

/-- What was found out about the grammar of a language after an install: it is registered, or the
install has failed. -/
structure Tried (G : String → Option String) (ft language : String) (ready : Bool)
    (h : List Moment) (st : State) : Prop where
  backed : Backed G ft h st
  loaded : ready = true → Loaded language h
  failed : ready = false → Failed language h

/-- A grammar that is not registered is judged by the bundled queries. -/
theorem leads_usable_of_ready {language : String} (ready : Bool) :
    Leads (Recorded s h w (Tried G ft language ready)) (orBundled language ready)
      (fun isAvailable => Recorded s h w (Judged G ft language isAvailable)) E := by
  unfold orBundled
  split
  · next hready =>
    refine leads_pure fun v hv => hv.mono fun h st hk => ⟨hk.backed, fun hG => ?_⟩
    exact ⟨language, hG, .inr (hk.loaded hready)⟩
  · next hready =>
    refine leads_state_eq.bind fun st => leads_pure fun v ⟨hst, hv⟩ => ?_
    subst hst
    refine ⟨hv.follows, hv.holds.backed, fun hG => ?_⟩
    have failed := hv.holds.failed (by simpa using hready)
    cases hb : v.state.bundled.contains language with
    | true => exact ⟨language, hG, .inl (by simpa using hb)⟩
    | false => exact ⟨language, hG, by simpa using hb, failed⟩

/-- After an install that has not failed the grammar is tried. -/
theorem leads_usable {language : String} {success : Bool} :
    Leads (Recorded s h w (Told G ft language success)) (usable s language success)
      (fun isAvailable => Recorded s h w (Judged G ft language isAvailable)) E := by
  unfold usable
  cases success with
  | true =>
    refine Leads.bind (Q := fun ready => Recorded s h w (Tried G ft language ready))
      ((leads_grammarReady language).weaken fun ready v hv => hv.mono ?_) leads_usable_of_ready
    rintro h st ⟨_, r, rfl, ⟨h', rfl, hb⟩, hr⟩
    refine ⟨(hb.cons _).cons _, fun hready => hr.mp hready ▸ List.mem_cons_self, fun hready => ?_⟩
    refine .inr ⟨[_], h', r, rfl, List.mem_cons_self, fun hr' => ?_⟩
    rw [hr.mpr hr'] at hready
    cases hready
  | false =>
    refine Leads.bind (Q := fun ready => Recorded s h w (Tried G ft language ready))
      (leads_pure fun v hv => hv.mono ?_) leads_usable_of_ready
    rintro h st ⟨h', rfl, hb⟩
    exact ⟨hb.cons _, nofun, fun _ => .inl List.mem_cons_self⟩

/-- What is known while the entries of an install are set: what the filetype deserves if it is one of
the language, and that this is so for the filetypes that are left. -/
structure Judging (G : String → Option String) (ft language : String) (isAvailable : Bool)
    (rest : List String) (h : List Moment) (st : State) : Prop where
  backed : Backed G ft h st
  deserved : G ft = some language → Deserved G ft h st (verdict isAvailable)
  listed : ∀ x ∈ rest, x = ft → G ft = some language
  initialized : rest ≠ [] → st.initialized = true

theorem Judging.tail {language : String} {isAvailable : Bool} {x : String} {rest : List String}
    (hj : Judging G ft language isAvailable (x :: rest) h st) :
    Judging G ft language isAvailable rest h st :=
  ⟨hj.backed, hj.deserved, fun y hy => hj.listed y (List.mem_cons_of_mem x hy),
    fun _ => hj.initialized (List.cons_ne_nil x rest)⟩

/-- The filetypes concerned are managed, and those of the documents that waited or those that the
editor lists. -/
theorem leads_filetypesOf (hs : Lists s F G) (hagree : ∀ l, ft ∈ F l → G ft = some l)
    {language : String} {isAvailable : Bool} {waiters : List Waiter}
    (hwaiters : ∀ y ∈ waiters, y.filetype = ft → G ft = some language) :
    Leads (Recorded s h w (Judged G ft language isAvailable)) (filetypesOf s language waiters)
      (fun fts => Recorded s h w (Judging G ft language isAvailable fts)) E := by
  have listed : Leads (Recorded s h w (Judged G ft language isAvailable)) (listedFor s language)
      (fun fts v => fts = F language ∧ Recorded s h w (Judged G ft language isAvailable) v) E := by
    refine Leads.bind (Q := fun r v => r = .ok (F language) ∧
      Recorded s h w (Judged G ft language isAvailable) v) (leads_attempt_ask fun v hv =>
        ⟨hs.filetypes language v.outside, ?_⟩) fun r => Leads.assume fun hr => ?_
    · exact (hv.ask _).mono fun _ _ ⟨_, he, hk⟩ => he ▸ hk.cons _
    · subst hr
      exact leads_pure fun v hv => ⟨rfl, hv⟩
  refine listed.bind fun fts => Leads.assume fun hfts => ?_
  subst hfts
  refine leads_state_eq.bind fun st => leads_pure fun v ⟨hst, hv⟩ => ?_
  subst hst
  refine ⟨hv.follows, hv.holds.backed, hv.holds.deserved, fun x hx e => ?_, fun hne => ?_⟩
  · subst e
    rcases List.mem_append.mp (mem_distinct.mp (List.mem_filter.mp hx).1) with hx | hx
    · obtain ⟨y, hy, hft⟩ := List.mem_map.mp hx
      exact hwaiters y hy hft
    · exact hagree language hx
  · cases hi : v.state.initialized with
    | true => rfl
    | false =>
      refine absurd ?_ hne
      rw [List.filter_eq_nil_iff]
      intro x _ hx
      rw [hv.holds.backed.unprepared hi] at hx
      simp [Assoc.has, Assoc.get?] at hx

/-- Setting one of the entries of an install, if it has to be set. -/
theorem leads_judge_cons {language : String} {isAvailable : Bool} (x : String) (rest : List String) :
    Leads (Recorded s h w (Judging G ft language isAvailable (x :: rest))) (judge isAvailable x)
      (fun _ => Recorded s h w (Judging G ft language isAvailable rest)) E := by
  have entered : Leads (Recorded s h w (Judging G ft language isAvailable (x :: rest)))
      (setAvailability x (verdict isAvailable))
      (fun _ => Recorded s h w (Judging G ft language isAvailable rest)) E := by
    refine leads_setAvailability_by (fun _ _ hv => hv.log _) fun v hv => hv.update fun h hj => ?_
    refine Judging.tail (x := x) ?_
    have hi := hj.initialized (List.cons_ne_nil x rest)
    refine ⟨hj.backed.set hi fun e => ?_, fun hG => ?_, hj.listed, fun _ => hi⟩
    · exact hj.deserved (hj.listed x List.mem_cons_self e)
    · cases isAvailable <;> exact hj.deserved hG
  unfold judge
  cases isAvailable with
  | true => exact entered
  | false =>
    refine leads_state_any.bind fun st => ?_
    split
    · exact leads_pure fun v hv => hv.mono fun _ _ hj => hj.tail
    · exact entered

/-- Setting the entries of an install. -/
theorem leads_judgeAll {language : String} {isAvailable : Bool} {filetypes : List String} :
    Leads (Recorded s h w (Judging G ft language isAvailable filetypes))
      (filetypes.forM (judge isAvailable)) (fun _ => Recorded s h w (Backed G ft)) E :=
  (Leads.forM (J := fun rest => Recorded s h w (Judging G ft language isAvailable rest))
    leads_judge_cons).weaken fun _ _ hv => hv.mono fun _ _ hj => hj.backed

/-- Judging an install the enablement was told about keeps what the registry says backed. -/
theorem leads_judgeInstall_backed (hs : Lists s F G) (hagree : ∀ l, ft ∈ F l → G ft = some l)
    {language : String} {success : Bool} {waiters : List Waiter}
    (hwaiters : ∀ y ∈ waiters, y.filetype = ft → G ft = some language) :
    Leads (Recorded s h w (Told G ft language success)) (judgeInstall s language success waiters)
      (fun _ => Recorded s h w (Backed G ft)) (Recorded s h w (Backed G ft)) := by
  have blind : Blind s [.settings, .features] [.features, .options, .editor]
      (Recorded s h w (Backed G ft)) := blind_backed (by simp) (by simp) (by simp) (by simp)
  refine leads_usable.bind fun isAvailable => ?_
  refine (leads_noteFallBack (fun _ _ hv => hv.log _) _ _ _).bind fun _ => ?_
  refine (leads_filetypesOf hs hagree hwaiters).bind fun fts => leads_judgeAll.bind fun _ => ?_
  exact (Keeps.ite (keeps_startWaiters blind language waiters) blind.keeps_note).leads

/-- Telling the enablement about the end of an install keeps what the registry says backed. -/
theorem leads_tell_backed (hs : Lists s F G) (hagree : ∀ l, ft ∈ F l → G ft = some l)
    (language : String) (success : Bool) :
    Leads (Recorded s h w (Backed G ft)) (tell s language success .enablement)
      (fun _ => Recorded s h w (Backed G ft)) E := by
  refine (leads_emit fun v hv => hv.told .enablement language success).bind fun _ =>
    Leads.shielded ?_ fun v l hv => hv.log l
  show Leads _ (installed s language success) _ _
  refine (leads_state (Q := fun st v => (∀ y ∈ st.waitersOf language, y.filetype = ft →
    G ft = some language) ∧ Recorded s h w (Told G ft language success) v) fun v hv => ⟨?_, hv⟩).bind
    fun st => Leads.assume fun hwaiters => ?_
  · obtain ⟨_, -, hb⟩ := hv.holds
    exact hb.waiting language
  · refine (leads_update fun v hv => hv.update fun h ⟨h', he, hb⟩ => ?_).bind fun _ =>
      leads_judgeInstall_backed hs hagree hwaiters
    exact ⟨h', he, hb.dequeue language⟩

/-! ## Steps -/

theorem backed_withstands (hs : Lists s F G) (hagree : ∀ l, ft ∈ F l → G ft = some l)
    (language : String) (success : Bool) :
    Withstands s language success (Recorded s h w (Backed G ft)) where
  blind := blind_backed (by simp) (by simp) (by simp) (by simp)
  forget _ hv := hv.update fun _ hb => ⟨hb.unprepared, hb.waiting, hb.deserved⟩
  outside name _ hv :=
    (hv.told (.outside name) language success).mono fun _ _ ⟨_, he, hb⟩ => he ▸ hb.cons _
  requested name task _ hv := (hv.requested name task).mono fun _ _ ⟨_, he, hb⟩ => he ▸ hb.cons _
  dispatch _ _ := Gateway.keeps_dispatch (blind_backed (by simp) (by simp) (by simp) (by simp)) _ _
  enablement _ := leads_tell_backed hs hagree language success

/-- Every step keeps what the registry says backed. -/
theorem exec_backed (hs : Lists s F G) (hagree : ∀ l, ft ∈ F l → G ft = some l) (x : Step σ)
    (hb : Backed G ft h w.state) :
    Backed G ft (extend s h w (exec s x w)) (exec s x w).state := by
  have start : ∀ st : State, st.registry = w.state.registry → st.bundled = w.state.bundled →
      st.initialized = w.state.initialized → st.waiters = w.state.waiters →
      Recorded s h w (Backed G ft) { w with state := st } := by
    intro st hr hbundled hi hw
    refine (Recorded.refl hb).update fun h hb => ?_
    obtain ⟨h₁, h₂, h₃⟩ := hb
    refine ⟨by rw [hr, hi]; exact h₁, fun l y hy => h₂ l y ?_, fun a ha => ?_⟩
    · rw [State.waitersOf, hw] at hy
      exact hy
    · rw [hr] at ha
      have := h₃ a ha
      cases a with
      | unknown => trivial
      | available => simpa only [Deserved, hbundled] using this
      | unavailable => simpa only [Deserved, hbundled] using this
  have running : ∀ (v : World σ) b, Recorded s h w (Backed G ft) v →
      Recorded s h w (Backed G ft) (v.setRunning b) := fun v b hv =>
    hv.update fun _ hb => ⟨hb.unprepared, hb.waiting, hb.deserved⟩
  have moved : Recorded s h w (Backed G ft) (exec s x w) →
      Backed G ft (extend s h w (exec s x w)) (exec s x w).state := fun hv => hv.holds
  have dispatch : ∀ languages callback, Keeps (Recorded s h w (Backed G ft))
      (Gateway.dispatch s languages callback) := fun languages callback =>
    Gateway.keeps_dispatch (blind_backed (by simp) (by simp) (by simp) (by simp)) _ _
  cases x with
  | call b o =>
    refine moved (exec_call_of running ?_)
    exact perform_keeps_by (blind_backed (by simp) (by simp) (by simp) (by simp))
      (Leads.keeps (leads_prepare_backed.weaken fun _ v hv => hv.mono fun _ _ hk => hk.1))
      (fun _ document filetype => keeps_attach_backed hs document filetype)
      (fun _ languages callback _ => dispatch languages callback) (start _ rfl rfl rfl rfl)
  | work j =>
    refine moved (exec_work_of running (Recorded.refl hb) ?_)
    have worked : Leads (Recorded s h w (Backed G ft)) (work s j)
        (fun _ => Recorded s h w (Backed G ft)) (Recorded s h w (Backed G ft)) :=
      leads_work_quiet (blind_backed (by simp) (by simp) (by simp) (by simp))
        (backed_withstands hs hagree) j
    exact worked.run (start _ rfl rfl rfl rfl)
  | answer ticket => exact moved (start _ rfl rfl rfl rfl)
  | cancel id => exact moved (start _ rfl rfl rfl rfl)
  | wait language => exact moved (start _ rfl rfl rfl rfl)
  | meanwhile f => exact (extend_self w).symm ▸ hb

/-- A filetype is not managed before the program is set up. -/
theorem backed_initial (hw : Initial w) : Backed G ft h w.state := by
  rw [hw.state]
  exact ⟨fun _ => rfl, nofun, nofun⟩

/-- **What the registry says is true.** After any run, if a filetype is available, then its language
is bundled or its grammar was registered in the run. If it is unavailable, then its language is not
bundled, and an install of it is over that had failed, or after which the grammar could not be
registered. The languages that list the filetype, if it is managed, must be its language. -/
theorem availability_sound (hs : Lists s F G) {w : World σ} (hw : Initial w)
    (steps : List (Step σ)) {v : World σ} (hv : v = run s steps w) {h : List Moment}
    (hh : h = chronicle s steps w []) (ft : String)
    (hagree : Assoc.has v.state.registry ft → ∀ l, ft ∈ F l → G ft = some l) :
    (Assoc.get? v.state.registry ft = some .available →
      ∃ l, G ft = some l ∧
        (l ∈ v.state.bundled ∨ .answered (.addLanguage l) (.ok (.bool true)) ∈ h)) ∧
    (Assoc.get? v.state.registry ft = some .unavailable →
      ∃ l, G ft = some l ∧ l ∉ v.state.bundled ∧
        (Finished l false v.state ∧ .told .enablement l false ∈ h ∨
          Finished l true v.state ∧ ∃ later earlier r,
            h = later ++ .told .enablement l true :: earlier ∧
              .answered (.addLanguage l) r ∈ later ∧ r ≠ .ok (.bool true))) := by
  have deserved : ∀ a, Assoc.get? v.state.registry ft = some a → Deserved G ft h v.state a := by
    intro a ha
    have managed : Assoc.has v.state.registry ft := by
      rw [Assoc.has, ha]
      rfl
    have backed : Backed G ft (chronicle s steps w []) (run s steps w).state :=
      chronicle_induction (K := fun h w => Backed G ft h w.state)
        (fun x _ h w hb => exec_backed hs (hagree managed) x hb) (backed_initial hw)
    rw [hh, hv]
    exact backed.deserved a (hv ▸ ha)
  have told : ∀ l b, .told .enablement l b ∈ h → Finished l b v.state := by
    intro l b hm
    have happened := List.mem_map_of_mem (f := Moment.event) hm
    rw [hh, event_chronicle steps (by rw [hw.trace]; rfl)] at happened
    exact hv ▸ told_finished hw steps happened
  refine ⟨fun ha => deserved _ ha, fun ha => ?_⟩
  obtain ⟨l, hl, hb, hf | ⟨later, earlier, r, he, hr⟩⟩ := deserved _ ha
  · exact ⟨l, hl, hb, .inl ⟨told l false hf, hf⟩⟩
  · exact ⟨l, hl, hb, .inr ⟨told l true (he ▸ by simp), later, earlier, r, he, hr⟩⟩

/-- An editor in which filetypes have the names of languages. It registers no grammar, comes with no
queries, and fails whatever else it is asked. -/
def grammarless (σ : Type) : Surroundings σ where
  reply
    | .filetypes language, x => (.ok [language], x)
    | .languageOf filetype, x => (.ok (some filetype), x)
    | .addLanguage _, x => (.ok (.bool false), x)
    | .bundledPaths, x => (.ok [], x)
    | c, x => (Surroundings.outOfReach σ).reply c x
  machine _ := .empty

/-- Such an editor, with an installer that installs nothing. -/
def bareEditor : Surroundings Unit where
  reply
    | .install _, x => (.ok (.now (.bool false)), x)
    | c, x => (grammarless Unit).reply c x
  machine _ := .empty

/-- Lua is managed, and installed when needed. -/
def bareWorld : World Unit :=
  .equipped () { parsers := ["lua"], flags := { autoInstall := true } }

/-- A document is attached and the install of its language fails: the filetype is unavailable, and
for that reason. -/
theorem availability_sound_failed :
    let steps : List (Step Unit) :=
      [.call true (.attach (some (.number 1)) (some "lua")), .work (.task 0)]
    let v := run bareEditor steps bareWorld
    Assoc.get? v.state.registry "lua" = some .unavailable ∧
      ∃ l, some "lua" = some l ∧ l ∉ v.state.bundled ∧
        (Finished l false v.state ∧
            .told .enablement l false ∈ chronicle bareEditor steps bareWorld [] ∨
          Finished l true v.state ∧ ∃ later earlier r,
            chronicle bareEditor steps bareWorld [] =
                later ++ .told .enablement l true :: earlier ∧
              .answered (.addLanguage l) r ∈ later ∧ r ≠ .ok (.bool true)) := by
  intro steps v
  have lists : Lists bareEditor (fun l => [l]) some := ⟨fun _ _ => rfl, fun _ _ => rfl⟩
  have initial : Initial bareWorld := ⟨rfl, rfl⟩
  have unavailable : Assoc.get? v.state.registry "lua" = some .unavailable := by decide +kernel
  have agree : ∀ l : String, "lua" ∈ [l] → some "lua" = some l := by
    intro l hl
    rw [List.mem_singleton.mp hl]
  exact ⟨unavailable, (availability_sound lists initial steps (v := v) rfl rfl "lua"
    fun _ => agree).2 unavailable⟩

end TreeFeatures.Enablement
