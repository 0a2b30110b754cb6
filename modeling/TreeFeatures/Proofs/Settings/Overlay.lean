import TreeFeatures.Proofs.Settings.Tables
import TreeFeatures.Value.Fields

/-!
# Tables laid over tables

`Value.overlay` merges two tables member by member and replaces everything else. It is computed entry
by entry; here is what it amounts to.

* `laid`: the value of a name, from its values in the two tables. `member?_overlayEntries`: so it is
  after the entries of one table were laid over another one.
* `overlayEntries_eq`: the entries in order. Those of the table stay where they are, each with what is
  laid over it, and the new ones follow.
* `KeysDiffer.overlayEntries`, `keys_overlayEntries`: the keys still differ, and there are no others.
-/

namespace TreeFeatures

namespace Value

variable {bs es : List (Value × Value)} {b k v : Value} {name : String}

/-! ## One table over another -/

/-- The value of a name of which the two tables have these values, if any. -/
def laid : Option Value → Option Value → Option Value
  | some b, some v => some (overlay b v)
  | b?, none => b?
  | none, some v => some v

@[simp] theorem laid_none_left (v? : Option Value) : laid none v? = v? := by
  cases v? <;> rfl

@[simp] theorem laid_none_right (b? : Option Value) : laid b? none = b? := by
  cases b? <;> rfl

theorem laid_eq_none {b? v? : Option Value} : laid b? v? = none ↔ b? = none ∧ v? = none := by
  cases b? <;> cases v? <;> simp [laid]

/-- Lay one entry over a table. -/
def putOver (bs : List (Value × Value)) (k v : Value) : List (Value × Value) :=
  putEntry bs k (((lookup? bs k).map (overlay · v)).getD v)

/-- Entries are laid over a table one after the other. -/
theorem overlayEntries_cons :
    overlayEntries bs ((k, v) :: es) = overlayEntries (putOver bs k v) es := by
  rw [overlayEntries, putOver]
  cases lookup? bs k <;> rfl

theorem putOver_of_same {key : Value} (h : same key k = true) :
    putOver ((key, b) :: bs) k v = (key, overlay b v) :: bs := by
  have found : lookup? ((key, b) :: bs) k = some b := by
    rw [lookup?, List.find?_cons_of_pos]
    · rfl
    · exact h
  rw [putOver, found, putEntry, if_pos h]
  rfl

theorem putOver_of_not_same {key : Value} (h : ¬ same key k = true) :
    putOver ((key, b) :: bs) k v = (key, b) :: putOver bs k v := by
  have skipped : lookup? ((key, b) :: bs) k = lookup? bs k := by
    rw [lookup?, lookup?, List.find?_cons_of_neg]
    exact h
  rw [putOver, skipped, putEntry, if_neg h, putOver]

theorem putOver_of_lookup?_eq_none (h : lookup? bs k = none) : putOver bs k v = bs ++ [(k, v)] := by
  rw [putOver, putEntry_of_lookup?_eq_none h, h]
  rfl

theorem member?_putOver_self :
    member? (putOver bs (.text name) v) name = laid (member? bs name) (some v) := by
  rw [putOver, member?_putEntry_self, lookup?_text]
  cases member? bs name <;> rfl

theorem member?_putOver_of_ne (h : k ≠ .text name) :
    member? (putOver bs k v) name = member? bs name := member?_putEntry_of_ne h

/-- The value of a name after entries are laid over a table. -/
theorem member?_overlayEntries (h : KeysDiffer es) :
    member? (overlayEntries bs es) name = laid (member? bs name) (member? es name) := by
  induction es generalizing bs with
  | nil =>
    rw [overlayEntries]
    exact (laid_none_right _).symm
  | cons e rest ih =>
    obtain ⟨k, v⟩ := e
    rw [overlayEntries_cons, ih h.of_cons]
    by_cases hk : k = .text name
    · subst hk
      rw [member?_putOver_self, h.member?_tail, laid_none_right, member?_cons_self]
    · rw [member?_putOver_of_ne hk, member?_cons_of_ne hk]

theorem KeysDiffer.overlayEntries (h : KeysDiffer bs) (es : List (Value × Value)) :
    KeysDiffer (overlayEntries bs es) := by
  induction es generalizing bs with
  | nil =>
    rw [Value.overlayEntries]
    exact h
  | cons e rest ih =>
    rw [overlayEntries_cons]
    exact ih (h.putEntry _ _)

theorem keys_overlayEntries {P : Value → Prop} (hb : ∀ e ∈ bs, P e.1) (he : ∀ e ∈ es, P e.1) :
    ∀ e ∈ overlayEntries bs es, P e.1 := by
  induction es generalizing bs with
  | nil =>
    rw [overlayEntries]
    exact hb
  | cons e rest ih =>
    obtain ⟨hk, hrest⟩ := List.forall_mem_cons.mp he
    rw [overlayEntries_cons]
    refine ih (fun e h => ?_) hrest
    rcases (mem_putEntry h).1 with h | ⟨f, hf, h⟩
    · exact h ▸ hk
    · exact h ▸ hb f hf

/-- What is no table replaces what it is laid over. -/
theorem overlay_of_not_table (h : v.isTable = false) : overlay b v = v := by
  cases v with
  | table es => cases h
  | _ => cases b <;> rfl

theorem laid_of_not_table (h : v.isTable = false) (b? : Option Value) :
    laid b? (some v) = some v := by
  cases b? with
  | none => rfl
  | some b => exact congrArg some (overlay_of_not_table h)

/-- Reading a switch does not depend on what its value is laid over. -/
theorem readValue_overlay : Flag.readValue (overlay b v) = Flag.readValue v := by
  cases v with
  | table es => cases b <;> rfl
  | _ => rw [overlay_of_not_table rfl]

/-! ## The entries in order -/

theorem overlayEntries_concat :
    overlayEntries bs (es ++ [(k, v)]) = putOver (overlayEntries bs es) k v := by
  induction es generalizing bs with
  | nil => rw [List.nil_append, overlayEntries_cons, overlayEntries, overlayEntries]
  | cons e rest ih => rw [List.cons_append, overlayEntries_cons, ih, overlayEntries_cons]

/-- An entry of the table, with what the entries say about its key laid over its value. -/
def lay (es : List (Value × Value)) (e : Value × Value) : Value × Value :=
  (e.1, ((lookup? es e.1).map (overlay e.2)).getD e.2)

/-- The table has no entry with the key of this one. -/
def fresh (bs : List (Value × Value)) (e : Value × Value) : Bool := (lookup? bs e.1).isNone

/-- What is said about one name does not matter to an entry with another. -/
theorem lay_concat_of_ne {e : Value × Value} (text : IsText e.1) (h : e.1 ≠ k) :
    lay (es ++ [(k, v)]) e = lay es e := by
  obtain ⟨_, b⟩ := e
  obtain ⟨n, rfl⟩ := text
  have other : member? [(k, v)] n = none := member?_cons_of_ne h.symm
  simp only [lay, lookup?_text, member?_append, other, Option.or_none]

/-- A name that the entries do not mention yet, laid over a table that has it. -/
theorem putOver_lay (hb : KeysDiffer bs) (texts : ∀ e ∈ bs, IsText e.1)
    (old : member? bs name ≠ none) (new : member? es name = none) (more : List (Value × Value)) :
    putOver (bs.map (lay es) ++ more) (.text name) v =
      bs.map (lay (es ++ [(.text name, v)])) ++ more := by
  induction bs with
  | nil => exact absurd rfl old
  | cons e rest ih =>
    obtain ⟨key, b⟩ := e
    obtain ⟨text, textsRest⟩ := List.forall_mem_cons.mp texts
    rw [List.map_cons, List.map_cons, List.cons_append, List.cons_append]
    by_cases hk : key = .text name
    · subst hk
      have own : lay es (.text name, b) = (.text name, b) := by
        simp only [lay, lookup?_text, new, Option.map_none, Option.getD_none]
      have joined : lay (es ++ [(.text name, v)]) (.text name, b) = (.text name, overlay b v) := by
        simp only [lay, lookup?_text, member?_append, new, Option.none_or, member?_cons_self,
          Option.map_some, Option.getD_some]
      have kept : rest.map (lay (es ++ [(.text name, v)])) = rest.map (lay es) :=
        List.map_congr_left fun e h => lay_concat_of_ne (textsRest e h)
          (member?_eq_none.mp hb.member?_tail e h)
      rw [own, joined, kept, putOver_of_same (same_text_right.mpr rfl)]
    · have later := ih hb.of_cons textsRest (member?_cons_of_ne hk ▸ old)
      have other : lay es (key, b) = (key, (lay es (key, b)).2) := rfl
      rw [lay_concat_of_ne text hk, other, putOver_of_not_same (mt same_text_right.mp hk), later]

/-- A key that a table of texts has is a text. -/
theorem isText_of_lookup? (texts : ∀ e ∈ bs, IsText e.1) (h : lookup? bs k = some b) : IsText k := by
  obtain ⟨e, he, -⟩ := Option.map_eq_some_iff.mp h
  obtain ⟨n, hn⟩ := texts e (List.mem_of_find?_eq_some he)
  have equal : same e.1 k = true := by simpa using List.find?_some he
  exact ⟨n, same_text_left.mp (hn ▸ equal)⟩

/-- A key that neither the table nor the entries mention yet goes to the end. -/
theorem putOver_lay_fresh (texts : ∀ e ∈ bs, IsText e.1) (old : lookup? bs k = none)
    (new : ∀ e ∈ es, same e.1 k = false) :
    putOver (bs.map (lay es) ++ es.filter (fresh bs)) k v =
      bs.map (lay (es ++ [(k, v)])) ++ (es.filter (fresh bs) ++ [(k, v)]) := by
  have absent : lookup? (bs.map (lay es) ++ es.filter (fresh bs)) k = none := by
    refine lookup?_eq_none.mpr fun e h => ?_
    rcases List.mem_append.mp h with h | h
    · obtain ⟨f, hf, rfl⟩ := List.mem_map.mp h
      exact lookup?_eq_none.mp old f hf
    · exact new e (List.mem_filter.mp h).1
  have kept : bs.map (lay (es ++ [(k, v)])) = bs.map (lay es) := by
    refine List.map_congr_left fun e h => lay_concat_of_ne (texts e h) ?_
    rintro rfl
    obtain ⟨n, hn⟩ := texts e h
    exact ne_text_of_not_same_right (hn ▸ lookup?_eq_none.mp old e h) hn
  rw [putOver_of_lookup?_eq_none absent, kept, List.append_assoc]

/-- **The entries of a table with others laid over it**: its own ones, where they are, and then the
others that are new. -/
theorem overlayEntries_eq (hb : KeysDiffer bs) (texts : ∀ e ∈ bs, IsText e.1) (he : KeysDiffer es) :
    overlayEntries bs es = bs.map (lay es) ++ es.filter (fresh bs) := by
  -- From the right: each entry is laid over what the entries before it have made of the table.
  induction es using List.reverseRecOn with
  | nil =>
    rw [overlayEntries, List.filter_nil, List.append_nil]
    exact (List.map_id bs).symm
  | append_singleton es e ih =>
    obtain ⟨k, v⟩ := e
    obtain ⟨differ, -, apart⟩ := List.pairwise_append.mp he
    have apart : ∀ e ∈ es, same e.1 k = false := fun e h => apart e h _ List.mem_cons_self
    rw [overlayEntries_concat, ih differ, List.filter_append]
    cases hk : lookup? bs k with
    | none =>
      have last : [(k, v)].filter (fresh bs) = [(k, v)] := by simp [fresh, hk]
      rw [last]
      exact putOver_lay_fresh texts hk apart
    | some b =>
      obtain ⟨n, rfl⟩ := isText_of_lookup? texts hk
      have last : [(Value.text n, v)].filter (fresh bs) = [] := by simp [fresh, hk]
      rw [last, List.append_nil]
      rw [lookup?_text] at hk
      exact putOver_lay hb texts (by simp [hk])
        (member?_eq_none.mpr fun e h => ne_text_of_not_same_right (apart e h)) _

/-! ## Optional tables -/

/-- The entries of a table; none if there is no table. -/
def inner : Option Value → List (Value × Value)
  | some (.table es) => es
  | _ => []

theorem mem_inner {b? : Option Value} {e : Value × Value} :
    e ∈ inner b? ↔ ∃ es, b? = some (.table es) ∧ e ∈ es := by
  cases b? with
  | none => simp [inner]
  | some b => cases b <;> simp [inner]

theorem member?_inner (b? : Option Value) : member? (inner b?) name = b?.bind (·.field? name) := by
  cases b? with
  | none => rfl
  | some b => cases b <;> rfl

theorem inner_keyed {P : Value → Prop} {b? : Option Value} (h : ∀ b, b? = some b → Keyed P b) :
    KeysDiffer (inner b?) ∧ ∀ e ∈ inner b?, P e.1 := by
  cases b? with
  | none => exact ⟨.nil, List.forall_mem_nil _⟩
  | some b =>
    cases b with
    | table bs => exact ⟨(h _ rfl).keysDiffer, (h _ rfl).keys⟩
    | _ => exact ⟨.nil, List.forall_mem_nil _⟩

/-- A table that is laid over something gives a table. -/
theorem laid_table (h : KeysDiffer es) (b? : Option Value) :
    laid b? (some (.table es)) = some (.table (overlayEntries (inner b?) es)) := by
  have alone : overlayEntries [] es = es := by
    rw [overlayEntries_eq .nil (List.forall_mem_nil _) h]
    exact List.filter_eq_self.mpr fun _ _ => rfl
  cases b? with
  | none => exact congrArg (fun es => some (Value.table es)) alone.symm
  | some b =>
    cases b with
    | table bs => rfl
    | _ => exact congrArg (fun es => some (Value.table es)) alone.symm

/-- The field of a table that is laid over a value. -/
theorem field?_overlay_table (h : KeysDiffer es) :
    (overlay b (.table es)).field? name = laid (b.field? name) (member? es name) := by
  have joined := Option.some.inj (laid_table h (some b))
  rw [joined]
  exact (member?_overlayEntries h).trans (congrArg (laid · _) (member?_inner (some b)))

end Value

end TreeFeatures
