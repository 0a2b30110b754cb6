import TreeFeatures.Features.Override

/-!
# Where the records stand

The overrides of a document are kept by option and handle, and each of them says itself which option
it is about. `Override.Filed` is a record that stands under its own option and handle, with what it
saved from there; in a table that is `Proper` all records do, and each key has one of them.

* `OverrideTable.saved?` is what the records of a table have saved for an option;
  `Proper.saved?_put`: writing a record changes it for the option of the record only.
* `overrides_setOverrides_self`, `overrides_activate`, `isActive_setOverrides` and their companions
  say whose overrides change and who is active.
* `Features.Tidy`: the records of all documents stand where they belong. `Features.Proceeds` are the
  changes of the features that the program makes: they keep this, and the target values.
-/

namespace TreeFeatures

/-- An option of a view or a document. -/
structure Slot where
  scope : Scope
  handle : Handle
  name : String
  deriving DecidableEq

/-! ## Records -/

/-- The scope of the options that are overridden. -/
def scopeOf (name : String) : Scope := if name = "indentexpr" then .document else .view

/-- The option that is overridden under a key. -/
def Slot.ofKey (k : String × Handle) : Slot := ⟨scopeOf k.1, k.2, k.1⟩

/-- A record that stands where it belongs. -/
structure Override.Filed (k : String × Handle) (r : Override) : Prop where
  name : r.name = k.1
  scope : r.scope = scopeOf k.1
  saved : ∀ x ∈ r.saved, x.1 = k.2

/-- A record is put back to the option of its key. -/
theorem Override.Filed.slot {k : String × Handle} {r : Override} (h : r.Filed k)
    {x : Handle × Value} (hx : r.saved = some x) : ⟨r.scope, x.1, r.name⟩ = Slot.ofKey k := by
  rw [h.scope, h.name, h.saved x hx]
  rfl

/-- Keeping the value found on the handle leaves a record where it belongs. -/
theorem Override.Filed.capture {name : String} {handle : Handle} {r : Override}
    (h : r.Filed (name, handle)) (current : Value) :
    (r.capture handle current).Filed (name, handle) := by
  unfold Override.capture
  split
  · exact h
  · refine ⟨h.name, h.scope, fun x hx => ?_⟩
    rw [Option.mem_some] at hx
    exact hx ▸ rfl

namespace OverrideTable

/-- What the records have saved for an option. -/
def saved? (t : OverrideTable) (o : Slot) : Option Value :=
  match Assoc.get? t (o.name, o.handle) with
  | some r => if r.scope = o.scope then r.saved.map Prod.snd else none
  | none => none

/-- Each option and handle has one record, and it stands where it belongs. -/
structure Proper (t : OverrideTable) : Prop where
  nodup : (Assoc.keys t).Nodup
  filed : ∀ k r, Assoc.get? t k = some r → r.Filed k

theorem proper_nil : Proper [] := ⟨List.nodup_nil, fun _ _ h => absurd h (by simp [Assoc.get?])⟩

theorem Proper.put {t : OverrideTable} (h : Proper t) {k : String × Handle} {r : Override}
    (hr : r.Filed k) : Proper (Assoc.put t k r) := by
  refine ⟨Assoc.nodup_keys_put h.nodup k r, fun k' r' hk => ?_⟩
  by_cases e : k = k'
  · subst e
    rw [Assoc.get?_put_self, Option.some.injEq] at hk
    exact hk ▸ hr
  · rw [Assoc.get?_put_of_ne t r e] at hk
    exact h.filed k' r' hk

/-- The first record, and the records after it. -/
theorem Proper.cons {k : String × Handle} {r : Override} {t : OverrideTable}
    (h : Proper ((k, r) :: t)) : r.Filed k ∧ Assoc.get? t k = none ∧ Proper t := by
  obtain ⟨hk, hn⟩ : k ∉ Assoc.keys t ∧ (Assoc.keys t).Nodup := List.nodup_cons.mp h.nodup
  have fresh : ∀ k' r', Assoc.get? t k' = some r' → ¬ k = k' :=
    fun k' r' hr e => hk (e ▸ Assoc.mem_keys_of_get? hr)
  refine ⟨h.filed k r (by simp [Assoc.get?]), ?_, hn, fun k' r' hr => ?_⟩
  · cases hg : Assoc.get? t k with
    | none => rfl
    | some r' => exact absurd rfl (fresh k r' hg)
  · exact h.filed k' r' (by rw [Assoc.get?, if_neg (fresh k' r' hr), hr])

/-- What is saved under a key is saved for its option, and the records after it save nothing for
that option. -/
theorem Proper.saved?_cons {k : String × Handle} {r : Override} {t : OverrideTable}
    (h : Proper ((k, r) :: t)) (o : Slot) :
    saved? ((k, r) :: t) o = if o = .ofKey k then r.saved.map Prod.snd else saved? t o := by
  obtain ⟨hr, hfresh, -⟩ := h.cons
  by_cases hk : k = (o.name, o.handle)
  · subst hk
    have same : o = .ofKey (o.name, o.handle) ↔ r.scope = o.scope := by
      rw [hr.scope, eq_comm (b := o.scope)]
      exact ⟨congrArg Slot.scope, fun e => congrArg (Slot.mk · o.handle o.name) e⟩
    rw [saved?, Assoc.get?, if_pos rfl]
    simp only [same, saved?, hfresh]
  · have : ¬ o = .ofKey k := fun e => hk (by rw [e]; rfl)
    rw [if_neg this, saved?, Assoc.get?, if_neg hk, saved?]

theorem Proper.saved?_ofKey {k : String × Handle} {r : Override} {t : OverrideTable}
    (h : Proper ((k, r) :: t)) : saved? t (.ofKey k) = none := by
  unfold saved?
  rw [show Assoc.get? t ((Slot.ofKey k).name, (Slot.ofKey k).handle) = none from h.cons.2.1]

theorem Proper.filed_record {t : OverrideTable} (h : Proper t) {o : Slot}
    (ho : o.scope = scopeOf o.name) (target : Value) :
    (t.record o.name o.scope target o.handle).Filed (o.name, o.handle) := by
  unfold record
  split
  · next r hr =>
    have := h.filed _ r hr
    exact ⟨this.name, this.scope, this.saved⟩
  · exact ⟨rfl, ho, fun x hx => absurd hx (by simp)⟩

@[simp] theorem target_record (t : OverrideTable) (name : String) (scope : Scope) (target : Value)
    (handle : Handle) : (t.record name scope target handle).target = target := by
  unfold record
  split <;> rfl

/-- Writing a record changes what is saved for its own option only. -/
theorem Proper.saved?_put {t : OverrideTable} (h : Proper t) {o : Slot}
    (ho : o.scope = scopeOf o.name) {r : Override} (hr : r.Filed (o.name, o.handle)) (o' : Slot) :
    saved? (Assoc.put t (o.name, o.handle) r) o' =
      if o' = o then r.saved.map Prod.snd else saved? t o' := by
  have hscope : r.scope = o.scope := hr.scope.trans ho.symm
  by_cases hk : (o.name, o.handle) = (o'.name, o'.handle)
  · have same : o' = o ↔ o.scope = o'.scope := by
      cases o; cases o'
      simp only [Prod.mk.injEq] at hk
      simp only [Slot.mk.injEq, hk.1, hk.2, and_true]
      exact eq_comm
    rw [saved?, ← hk, Assoc.get?_put_self]
    simp only [hscope, same]
    split
    · rfl
    · -- all records under this key have the scope of the option
      next hne =>
      rw [saved?, ← hk]
      cases hg : Assoc.get? t (o.name, o.handle) with
      | none => rfl
      | some r' =>
        have : r'.scope = o.scope := (h.filed _ r' hg).scope.trans ho.symm
        exact (if_neg (this ▸ hne)).symm
  · have : ¬ o' = o := fun e => hk (e ▸ rfl)
    rw [if_neg this, saved?, Assoc.get?_put_of_ne t r hk, saved?]

/-- A record with a new target has saved what is saved for its option. -/
theorem Proper.saved_record {t : OverrideTable} (h : Proper t) {o : Slot}
    (ho : o.scope = scopeOf o.name) (target : Value) :
    (t.record o.name o.scope target o.handle).saved.map Prod.snd = saved? t o := by
  unfold record saved?
  cases hg : Assoc.get? t (o.name, o.handle) with
  | none => rfl
  | some r =>
    have : r.scope = o.scope := (h.filed _ r hg).scope.trans ho.symm
    exact (if_pos this).symm

/-- What a record has saved once it has kept a value. -/
theorem saved_capture (r : Override) (handle : Handle) (current : Value) :
    (r.capture handle current).saved.map Prod.snd = (r.saved.map Prod.snd).or (some current) := by
  unfold Override.capture
  split
  · next x hx => simp [hx]
  · next hx => simp [hx]

/-- What becomes of the record of an option on a handle when the option is overridden: it gets the
target, and it may keep the value found. -/
def Renewed (t : OverrideTable) (name : String) (scope : Scope) (target : Value) (handle : Handle)
    (r : Override) : Prop :=
  r = t.record name scope target handle ∨
    ∃ current, r = (t.record name scope target handle).capture handle current

theorem Proper.filed_renewed {t : OverrideTable} (h : Proper t) {o : Slot}
    (ho : o.scope = scopeOf o.name) {target : Value} {r : Override}
    (hr : t.Renewed o.name o.scope target o.handle r) : r.Filed (o.name, o.handle) := by
  have filed := h.filed_record ho target
  rcases hr with rfl | ⟨current, rfl⟩
  · exact filed
  · exact filed.capture current

end OverrideTable

/-! ## Documents -/

namespace Features

@[simp] theorem overrides_setOverrides_self (f : Features) (document : Handle)
    (t : OverrideTable) : (f.setOverrides document t).overrides document = t := by
  simp [setOverrides, overrides]

theorem overrides_setOverrides_of_ne (f : Features) {document other : Handle} (t : OverrideTable)
    (h : document ≠ other) : (f.setOverrides document t).overrides other = f.overrides other := by
  simp [setOverrides, overrides, Assoc.get?_put_of_ne _ _ h]

@[simp] theorem overrides_activate (f : Features) (document other : Handle) :
    (f.activate document).overrides other = f.overrides other := by
  by_cases h : document = other
  · rw [h]
    exact overrides_setOverrides_self _ _ _
  · exact overrides_setOverrides_of_ne _ _ h

@[simp] theorem overrides_drop_self (f : Features) (document : Handle) :
    (f.drop document).overrides document = [] := by
  simp [drop, overrides]

theorem overrides_drop_of_ne (f : Features) {document other : Handle} (h : document ≠ other) :
    (f.drop document).overrides other = f.overrides other := by
  simp [drop, overrides, Assoc.get?_remove_of_ne _ h]

/-- Writing the overrides of a document counts it among the active ones. -/
theorem isActive_setOverrides (f : Features) (document other : Handle) (t : OverrideTable) :
    (f.setOverrides document t).isActive other =
      (decide (document = other) || f.isActive other) := by
  unfold setOverrides isActive Assoc.has
  by_cases e : document = other
  · subst e
    simp
  · rw [Assoc.get?_put_of_ne _ _ e]
    simp [e]

theorem isActive_setOverrides_of_ne (f : Features) {document other : Handle} (t : OverrideTable)
    (h : document ≠ other) : (f.setOverrides document t).isActive other = f.isActive other := by
  rw [isActive_setOverrides, decide_eq_false h, Bool.false_or]

@[simp] theorem isActive_drop_self (f : Features) (document : Handle) :
    (f.drop document).isActive document = false := by
  simp [drop, isActive, Assoc.has]

theorem isActive_drop_of_ne (f : Features) {document other : Handle} (h : document ≠ other) :
    (f.drop document).isActive other = f.isActive other := by
  simp [drop, isActive, Assoc.has, Assoc.get?_remove_of_ne _ h]

/-- A document that shows no features has no overrides. -/
theorem overrides_of_not_isActive {f : Features} {document : Handle}
    (h : f.isActive document = false) : f.overrides document = [] := by
  rw [isActive, Assoc.has, Option.isSome_eq_false_iff, Option.isNone_iff_eq_none] at h
  rw [overrides, h, Option.getD_none]

/-! ## Changes -/

/-- The records of all documents stand where they belong. -/
def Tidy (f : Features) : Prop := ∀ document, (f.overrides document).Proper

theorem Tidy.setOverrides {f : Features} (h : f.Tidy) (document : Handle) {t : OverrideTable}
    (ht : t.Proper) : (f.setOverrides document t).Tidy := by
  intro d
  by_cases e : document = d
  · rw [e, overrides_setOverrides_self]
    exact ht
  · rw [overrides_setOverrides_of_ne _ _ e]
    exact h d

theorem Tidy.drop {f : Features} (h : f.Tidy) (document : Handle) : (f.drop document).Tidy := by
  intro d
  by_cases e : document = d
  · rw [e, overrides_drop_self]
    exact OverrideTable.proper_nil
  · rw [overrides_drop_of_ne _ e]
    exact h d

/-- A change of the features that the program makes: the target values stay, and so do the records
where they belong. -/
structure Proceeds (f g : Features) : Prop where
  targets : g.targets = f.targets
  tidy : f.Tidy → g.Tidy

theorem Proceeds.activate (f : Features) (document : Handle) : f.Proceeds (f.activate document) :=
  ⟨rfl, fun h => h.setOverrides document (h document)⟩

theorem Proceeds.drop (f : Features) (document : Handle) : f.Proceeds (f.drop document) :=
  ⟨rfl, fun h => h.drop document⟩

/-- Overriding an option files its record. -/
theorem Proceeds.override (f : Features) (document : Handle) {o : Slot}
    (ho : o.scope = scopeOf o.name) {target : Value} {r : Override}
    (hr : (f.overrides document).Renewed o.name o.scope target o.handle r) :
    f.Proceeds
      (f.setOverrides document (Assoc.put (f.overrides document) (o.name, o.handle) r)) :=
  ⟨rfl, fun h => h.setOverrides document ((h document).put ((h document).filed_renewed ho hr))⟩

end Features

end TreeFeatures
