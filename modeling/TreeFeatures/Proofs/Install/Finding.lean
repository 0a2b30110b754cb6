import TreeFeatures.Install.Discovery
import TreeFeatures.Proofs.Keeps

/-!
# Which registered installer is found

A search goes through the registered installers in order. It passes over those of another name and
those that cannot be loaded or made. It ends at the first one whose factory gives a result, also
when that result is nothing. So the search comes back with nothing although a later factory makes an
installer, when an earlier one gives nothing.

* `Searched` is what a search comes to, and how far it looks; `leads_firstOf` says that `firstOf`
  comes to that, and which installers it loads on the way.
* **`found_first_iff`**: the search never fails, and finds the first installer that a registered
  factory of the name makes, unless an earlier factory of the name gives nothing.
-/

namespace TreeFeatures.Discovery

open Act

/-- A registered installer. -/
structure EntryPoint where
  name : String
  /-- What loading its factory gives. -/
  load : Except Fault Unit
  /-- What its factory makes, null if nothing. -/
  make : Except Fault Value

/-- What is made, if it is something. -/
def something : Value → Option Value
  | .null => none
  | v => some v

namespace EntryPoint

variable (wanted : Option String) (e : EntryPoint)

/-- Whether it has the name that is looked for, if there is one. -/
def named : Bool := wanted.all (· = e.name)

/-- What loading and making give. -/
def made : Except Fault Value := e.load.bind fun _ => e.make

/-- The installer that it provides. -/
def installer? : Option Value := e.made.toOption.bind something

/-- A search goes on after it: it has another name, or cannot be loaded or made. -/
def PassedOver : Prop := e.named wanted → ∃ f, e.made = .error f

end EntryPoint

/-- The first installer that a registered factory of the name makes. -/
def provided (wanted : Option String) (es : List EntryPoint) : Option Value :=
  es.findSome? fun e => if e.named wanted then e.installer? else none

/-- A factory that gives nothing is where the search ends, and a later one makes an installer. -/
def Shadowed (wanted : Option String) (es : List EntryPoint) : Prop :=
  ∃ before e after, es = before ++ e :: after ∧ (∀ b ∈ before, b.PassedOver wanted) ∧
    e.named wanted ∧ e.made = .ok .null ∧ ∃ p ∈ after, p.named wanted ∧ p.installer? ≠ none

/-- What a search comes to, and at how many of the registered installers it looks. -/
inductive Searched (wanted : Option String) (es : List EntryPoint) : Option Value → Nat → Prop
  /-- It ends at the first one of the name that is made. -/
  | ended {before after : List EntryPoint} {e : EntryPoint} {v : Value}
      (split : es = before ++ e :: after) (passed : ∀ b ∈ before, b.PassedOver wanted)
      (named : e.named wanted) (made : e.made = .ok v) :
      Searched wanted es (something v) (before.length + 1)
  /-- All are passed over. -/
  | exhausted (passed : ∀ e ∈ es, e.PassedOver wanted) : Searched wanted es none es.length

variable {wanted : Option String} {es : List EntryPoint}

/-! ## The specification of a search -/

theorem provided_eq_none_of_passed (h : ∀ e ∈ es, e.PassedOver wanted) :
    provided wanted es = none := by
  refine List.findSome?_eq_none_iff.mpr fun e he => ?_
  split
  · next hn =>
    obtain ⟨f, hf⟩ := h e he hn
    rw [EntryPoint.installer?, hf]
    rfl
  · rfl

theorem provided_eq_none_iff :
    provided wanted es = none ↔ ∀ e ∈ es, e.named wanted → e.installer? = none := by
  simp [provided, List.findSome?_eq_none_iff]

/-- What is passed over provides nothing. -/
theorem provided_append {before rest : List EntryPoint} (h : ∀ b ∈ before, b.PassedOver wanted) :
    provided wanted (before ++ rest) = provided wanted rest := by
  have := provided_eq_none_of_passed h
  simp only [provided] at this ⊢
  rw [List.findSome?_append, this, Option.none_or]

theorem provided_cons_of_made {e : EntryPoint} {v : Value} (rest : List EntryPoint)
    (hn : e.named wanted) (hm : e.made = .ok v) :
    provided wanted (e :: rest) = (something v).or (provided wanted rest) := by
  have : e.installer? = something v := by rw [EntryPoint.installer?, hm]; rfl
  simp only [provided, List.findSome?_cons, hn, if_pos, this]
  cases something v <;> rfl

/-- Two splits at the place where a search ends are the same. -/
theorem split_unique {before before' after after' : List EntryPoint} {e e' : EntryPoint}
    (h : before ++ e :: after = before' ++ e' :: after')
    (hb : ∀ b ∈ before, b.PassedOver wanted) (hb' : ∀ b ∈ before', b.PassedOver wanted)
    (he : ¬ e.PassedOver wanted) (he' : ¬ e'.PassedOver wanted) : e = e' ∧ after = after' := by
  induction before generalizing before' with
  | nil =>
    cases before' with
    | nil => exact List.cons.inj h
    | cons b rest =>
      have hhead := (List.cons.inj h).1
      exact absurd (hb' b List.mem_cons_self) (hhead ▸ he)
  | cons b rest ih =>
    cases before' with
    | nil =>
      have hhead := (List.cons.inj h).1
      exact absurd (hb b List.mem_cons_self) (hhead ▸ he')
    | cons b' rest' =>
      exact ih (List.cons.inj h).2 (fun x hx => hb x (List.mem_cons_of_mem b hx))
        fun x hx => hb' x (List.mem_cons_of_mem b' hx)

theorem EntryPoint.not_passedOver {e : EntryPoint} {v : Value} (hn : e.named wanted)
    (hm : e.made = .ok v) : ¬ e.PassedOver wanted := by
  intro h
  obtain ⟨f, hf⟩ := h hn
  cases hm.symm.trans hf

namespace Searched

variable {r : Option Value} {n : Nat}

/-- A search does not come back with a later installer than the first one. -/
theorem eq_none_or (h : Searched wanted es r n) : r = none ∨ r = provided wanted es := by
  cases h with
  | exhausted _ => exact .inl rfl
  | @ended before after e v split passed named made =>
    rw [split, provided_append passed, provided_cons_of_made after named made]
    cases something v with
    | none => exact .inl rfl
    | some x => exact .inr rfl

/-- A search misses what is provided exactly if a factory that gives nothing comes first. -/
theorem eq_provided_iff (h : Searched wanted es r n) :
    r = provided wanted es ↔ ¬ Shadowed wanted es := by
  cases h with
  | exhausted passed =>
    refine ⟨fun _ => ?_, fun _ => (provided_eq_none_of_passed passed).symm⟩
    rintro ⟨before, e, after, rfl, -, hn, hm, -⟩
    exact e.not_passedOver hn hm (passed e (by simp))
  | @ended before after e v split passed named made =>
    rw [split, provided_append passed, provided_cons_of_made after named made]
    constructor
    · rintro heq ⟨before', e', after', hsplit, passed', hn, hm, p, hp, hpn, hpi⟩
      obtain ⟨rfl, rfl⟩ := split_unique hsplit passed passed'
        (e.not_passedOver named made) (e'.not_passedOver hn hm)
      cases made.symm.trans hm
      exact hpi (provided_eq_none_iff.mp heq.symm p hp hpn)
    · intro hno
      cases hv : something v with
      | some x => rfl
      | none =>
        have null : v = .null := by cases v <;> first | rfl | cases hv
        refine (provided_eq_none_iff.mpr fun p hp hpn => ?_).symm
        by_cases hpi : p.installer? = none
        · exact hpi
        · exact absurd ⟨before, e, after, rfl, passed, named, null ▸ made, p, hp, hpn, hpi⟩ hno

end Searched

/-! ## The search -/

variable {σ : Type} {s : Surroundings σ}

/-- Surroundings with registered installers: what loading and making one gives does not change. -/
structure Registered (s : Surroundings σ) (es : List EntryPoint) : Prop where
  names : ∀ x, (s.reply (.entryPoints group) x).1 = .ok (es.map EntryPoint.name)
  load : ∀ i e x, es[i]? = some e → (s.reply (.loadEntryPoint i e.name) x).1 = e.load
  make : ∀ i e x, es[i]? = some e → (s.reply (.makeInstaller i e.name) x).1 = e.make

/-- The registered installers that were loaded since a world: those of the name among the first
ones. -/
structure Loaded (wanted : Option String) (es : List EntryPoint) (w : World σ) (n : Nat)
    (v : World σ) : Prop where
  later : w.trace <:+ v.trace
  loads : ∀ i name, .asked (.loadEntryPoint i name) ∈ news w v ↔
    i < n ∧ ∃ e, es[i]? = some e ∧ e.named wanted ∧ e.name = name

namespace Loaded

variable {w v : World σ} {n : Nat}

theorem self : Loaded wanted es w 0 w :=
  ⟨List.suffix_rfl, by simp⟩

/-- Other calls load nothing. -/
theorem ask (h : Loaded wanted es w n v) {c : Call} (hc : ∀ i name, c ≠ .loadEntryPoint i name) :
    Loaded wanted es w n (afterCall s c v) where
  later := h.later.trans (List.suffix_cons _ _)
  loads i name := by
    rw [news_cons h.later rfl, List.mem_cons, ← h.loads i name, or_iff_right]
    intro e
    exact hc i name (Event.asked.inj e).symm

/-- The next one has another name. -/
theorem skip (h : Loaded wanted es w n v) {e : EntryPoint} (he : es[n]? = some e)
    (hn : ¬ e.named wanted) : Loaded wanted es w (n + 1) v where
  later := h.later
  loads i name := by
    rw [h.loads i name, Nat.lt_succ_iff_lt_or_eq]
    constructor
    · rintro ⟨hi, hx⟩
      exact ⟨.inl hi, hx⟩
    · rintro ⟨hi | rfl, x, hx, hxn, hname⟩
      · exact ⟨hi, x, hx, hxn, hname⟩
      · cases he.symm.trans hx
        exact absurd hxn hn

/-- The next one is loaded. -/
theorem load (h : Loaded wanted es w n v) {e : EntryPoint} (he : es[n]? = some e)
    (hn : e.named wanted) : Loaded wanted es w (n + 1) (afterCall s (.loadEntryPoint n e.name) v) where
  later := h.later.trans (List.suffix_cons _ _)
  loads i name := by
    rw [news_cons h.later rfl, List.mem_cons, h.loads i name, Nat.lt_succ_iff_lt_or_eq]
    constructor
    · rintro (heq | ⟨hi, hx⟩)
      · cases heq
        exact ⟨.inr rfl, e, he, hn, rfl⟩
      · exact ⟨.inl hi, hx⟩
    · rintro ⟨hi | rfl, x, hx, hxn, hname⟩
      · exact .inr ⟨hi, x, hx, hxn, hname⟩
      · cases he.symm.trans hx
        exact .inl (hname ▸ rfl)

end Loaded

variable {w : World σ} {E : World σ → Prop}

/-- One that is tried is loaded, and gives what it makes or why it does not. -/
theorem leads_attempt_produce (hs : Registered s es) {n : Nat} {e : EntryPoint}
    (he : es[n]? = some e) (hn : e.named wanted) :
    Leads (Loaded wanted es w n) (attempt (produce s n e.name))
      (fun r v => r = e.made ∧ Loaded wanted es w (n + 1) v) E := by
  intro v hv
  have loaded := hv.load (s := s) he hn
  have hload := hs.load n e v.outside he
  cases hl : e.load with
  | error f =>
    rw [run_attempt, produce, run_bind_of_error _ (by rw [run_ask, hload, hl])]
    exact ⟨by rw [EntryPoint.made, hl]; rfl, loaded⟩
  | ok u =>
    rw [run_attempt, produce, run_bind_of_ok _ (by rw [run_ask, hload, hl]), run_ask,
      hs.make n e _ he]
    exact ⟨by rw [EntryPoint.made, hl]; rfl, loaded.ask fun _ _ => nofun⟩

/-- From a position on, with all that comes before passed over, a search comes to an end as the
whole list says. -/
theorem leads_firstOf (hs : Registered s es) {before rest : List EntryPoint}
    (hes : es = before ++ rest) (passed : ∀ b ∈ before, b.PassedOver wanted) :
    Leads (Loaded wanted es w before.length)
      (firstOf s wanted before.length (rest.map EntryPoint.name))
      (fun r v => ∃ n, Searched wanted es r n ∧ Loaded wanted es w n v) E := by
  induction rest generalizing before with
  | nil =>
    rw [List.append_nil] at hes
    subst hes
    exact leads_pure fun v hv => ⟨_, .exhausted passed, hv⟩
  | cons e rest ih =>
    have he : es[before.length]? = some e := by simp [hes]
    -- If `e` is passed over, the rest is searched with `e` among those that come before.
    have go_on : e.PassedOver wanted → Leads (Loaded wanted es w (before.length + 1))
        (firstOf s wanted (before.length + 1) (rest.map EntryPoint.name))
        (fun r v => ∃ n, Searched wanted es r n ∧ Loaded wanted es w n v) E := by
      intro hp
      have passed' : ∀ b ∈ before ++ [e], b.PassedOver wanted := fun b hb => by
        rcases List.mem_append.mp hb with hb | hb
        · exact passed b hb
        · exact List.mem_singleton.mp hb ▸ hp
      have searched := ih (show es = (before ++ [e]) ++ rest by simp [hes]) passed'
      rwa [List.length_append] at searched
    show Leads _ (if e.named wanted then _ else _) _ _
    by_cases hn : e.named wanted
    · rw [if_pos hn]
      refine (leads_attempt_produce hs he hn).bind fun r => Leads.assume fun hr => ?_
      have noted : ∀ (v : World σ) l, Loaded wanted es w (before.length + 1) v →
          Loaded wanted es w (before.length + 1) { v with log := l } :=
        fun _ _ hv => ⟨hv.later, hv.loads⟩
      rcases r with f | v
      · refine (leads_note fun v hv => noted v _ hv).bind fun _ => ?_
        exact go_on fun _ => ⟨f, hr.symm⟩
      · refine (leads_note fun v hv => noted v _ hv).bind fun _ => leads_pure fun w' hw' => ?_
        have ended := Searched.ended hes passed hn hr.symm
        refine ⟨_, ?_, hw'⟩
        cases v <;> exact ended
    · rw [if_neg hn]
      exact (go_on fun h => absurd h hn).mono (fun v hv => hv.skip he hn) (fun _ _ => id) fun _ => id

/-- **A search finds the first installer that is provided, unless it is shadowed.** Among any list
of registered installers, each of which may fail to load, fail to be made or make nothing, the
search for a name, or for any, ends without a fault. What it finds is the first installer that a
registered factory of the name makes exactly if no earlier factory of the name gives nothing;
otherwise it finds nothing. It loads the installers of the name up to the one where it ends, and no
other. -/
theorem found_first_iff (hs : Registered s es) (wanted : Option String) (w : World σ) :
    ∃ r v n, (findRegistered s wanted).run w = (.ok r, v) ∧
      (r = provided wanted es ↔ ¬ Shadowed wanted es) ∧ (r = none ∨ r = provided wanted es) ∧
      Searched wanted es r n ∧
      ∀ i name, .asked (.loadEntryPoint i name) ∈ news w v ↔
        i < n ∧ ∃ e, es[i]? = some e ∧ e.named wanted ∧ e.name = name := by
  have found : Leads (fun v => v = w) (findRegistered s wanted)
      (fun r v => ∃ n, Searched wanted es r n ∧ Loaded wanted es w n v) fun _ => False := by
    refine Leads.bind (Q := fun r v => r = .ok (es.map EntryPoint.name) ∧ Loaded wanted es w 0 v)
      (leads_attempt_ask ?_) fun r => Leads.assume fun hr => ?_
    · rintro v rfl
      exact ⟨hs.names _, Loaded.self.ask fun _ _ => nofun⟩
    · subst hr
      exact leads_firstOf hs (List.nil_append es).symm (by simp)
  obtain ⟨r, hr, n, searched, loaded⟩ := found.exists_ok rfl
  exact ⟨r, _, n, Prod.ext hr rfl, searched.eq_provided_iff, searched.eq_none_or, searched,
    loaded.loads⟩

/-- Surroundings that have these registered installers, and nothing else. -/
def offering (es : List EntryPoint) : Surroundings Unit where
  reply
    | .entryPoints _, x => (.ok (es.map EntryPoint.name), x)
    | .loadEntryPoint i _, x => ((es[i]?).elim (.error (.external "out of reach")) EntryPoint.load, x)
    | .makeInstaller i _, x => ((es[i]?).elim (.error (.external "out of reach")) EntryPoint.make, x)
    | c, x => (Surroundings.outOfReach Unit).reply c x
  machine _ := .empty

theorem offering_registered (es : List EntryPoint) : Registered (offering es) es where
  names _ := rfl
  load i e x h := by simp [offering, h]
  make i e x h := by simp [offering, h]

/-- The first factory cannot be loaded, the second one gives nothing, the third one makes an
installer. -/
def shadowing : List EntryPoint :=
  [⟨"broken", .error (.external "broken"), .ok .null⟩, ⟨"empty", .ok (), .ok .null⟩,
    ⟨"real", .ok (), .ok (.text "installer")⟩]

theorem found_first_iff_named :
    Registered (offering shadowing) shadowing ∧
      ∃ v, (findRegistered (offering shadowing) (some "real")).run ⟨{}, (), [], []⟩ =
        (.ok (some (.text "installer")), v) := by
  have registered := offering_registered shadowing
  refine ⟨registered, ?_⟩
  obtain ⟨r, v, n, hrun, hiff, -⟩ := found_first_iff registered (some "real") ⟨{}, (), [], []⟩
  have clear : ¬ Shadowed (some "real") shadowing := by
    rintro ⟨before, e, after, hsplit, -, hn, hm, -⟩
    have he : e ∈ shadowing := hsplit ▸ by simp
    simp only [shadowing, List.mem_cons, List.not_mem_nil, or_false] at he
    rcases he with rfl | rfl | rfl
    · cases hn
    · cases hn
    · cases hm
  have first : provided (some "real") shadowing = some (.text "installer") := rfl
  exact ⟨v, by rw [hrun, hiff.mpr clear, first]⟩

/-- An installer is provided, and the search finds nothing: the factory before it gives nothing. -/
theorem installer_missed :
    Registered (offering shadowing) shadowing ∧
      provided none shadowing = some (.text "installer") ∧
      ((findRegistered (offering shadowing) none).run ⟨{}, (), [], []⟩).1 = .ok none :=
  ⟨offering_registered shadowing, rfl, rfl⟩

end TreeFeatures.Discovery
