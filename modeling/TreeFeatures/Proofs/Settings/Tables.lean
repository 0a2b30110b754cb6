import Mathlib.Data.List.Induction
import TreeFeatures.Settings.Sources
import TreeFeatures.Yaml.Document

/-!
# Tables and their keys

The entries of a table are a list, and nothing in the type forbids two with the same key. No table that
is read has such entries: repeated names are collapsed when an object or a mapping is made.

* `KeysDiffer`: no two keys are equal. `Keyed P`: the keys of a table differ and have the property
  `P`, and so do those of the tables among its values, at any depth.
* `member?_putEntry_self`, `member?_putEntry_of_ne`: writing an entry changes the value of its own key
  only. `KeysDiffer.putEntry`: it keeps the keys different.
* `keysDiffer_collapse`, `member?_collapse`: of several entries with one name the last counts.
* `Json.keyed_read`: a JSON value is keyed by texts. `Yaml.keyed_read`: the value of a document is
  keyed.
-/

namespace TreeFeatures

/-- A composition has a result exactly if its first part has one, and its second from there. -/
theorem bind_eq_ok {ε α β : Type} {x : Except ε α} {f : α → Except ε β} {b : β} :
    x >>= f = .ok b ↔ ∃ a, x = .ok a ∧ f a = .ok b := by
  cases x with
  | error e => exact ⟨nofun, nofun⟩
  | ok a => exact ⟨fun h => ⟨a, rfl, h⟩, fun ⟨_, rfl, h⟩ => h⟩

/-- What has a result is that result. -/
theorem toOption_eq_some {ε α : Type} {x : Except ε α} {a : α} : x.toOption = some a ↔ x = .ok a := by
  cases x <;> simp [Except.toOption]

namespace Value

variable {es fs : List (Value × Value)} {k v : Value} {name : String}

/-! ## Keys -/

/-- Whether a value is a table. -/
def isTable : Value → Bool
  | .table _ => true
  | _ => false

/-- A value that is a text. -/
def IsText (v : Value) : Prop := ∃ s, v = .text s

/-- No two keys are equal. -/
def KeysDiffer (es : List (Value × Value)) : Prop := es.Pairwise fun a b => same a.1 b.1 = false

instance (es : List (Value × Value)) : Decidable (KeysDiffer es) :=
  inferInstanceAs (Decidable (es.Pairwise fun a b => same a.1 b.1 = false))

/-- No two keys of the table are equal and all have a property, and so it is with the tables among its
values. -/
inductive Keyed (P : Value → Prop) : Value → Prop
  | other {v : Value} : v.isTable = false → Keyed P v
  | table {es : List (Value × Value)} : KeysDiffer es → (∀ e ∈ es, P e.1) →
      (∀ e ∈ es, Keyed P e.2) → Keyed P (.table es)

theorem Keyed.keysDiffer {P : Value → Prop} (h : Keyed P (.table es)) : KeysDiffer es := by
  cases h with
  | other h => cases h
  | table h _ _ => exact h

theorem Keyed.keys {P : Value → Prop} (h : Keyed P (.table es)) : ∀ e ∈ es, P e.1 := by
  cases h with
  | other h => cases h
  | table _ h _ => exact h

theorem Keyed.values {P : Value → Prop} (h : Keyed P (.table es)) : ∀ e ∈ es, Keyed P e.2 := by
  cases h with
  | other h => cases h
  | table _ _ h => exact h

theorem Keyed.nil {P : Value → Prop} : Keyed P (.table []) :=
  .table .nil (List.forall_mem_nil _) (List.forall_mem_nil _)

/-- Only a text equals a text. -/
theorem same_text_right : same k (.text name) = true ↔ k = .text name := by
  cases k <;> simp [same, sameAtom, asInt?]

theorem same_text_left : same (.text name) k = true ↔ k = .text name := by
  cases k with
  | text s => simpa [same, sameAtom] using eq_comm
  | _ => simp [same, sameAtom, asInt?]

theorem ne_text_of_not_same_right (h : same k (.text name) = false) : k ≠ .text name := by
  rintro rfl
  rw [same_text_right.mpr rfl] at h
  cases h

theorem ne_text_of_not_same_left (h : same (.text name) k = false) : k ≠ .text name := by
  rintro rfl
  rw [same_text_left.mpr rfl] at h
  cases h

/-! ## The value of a name -/

@[simp] theorem member?_nil : member? [] name = none := rfl

@[simp] theorem member?_cons_self : member? ((.text name, v) :: es) name = some v := by
  simp [member?]

theorem member?_cons_of_ne (h : k ≠ .text name) : member? ((k, v) :: es) name = member? es name := by
  unfold member?
  rw [List.find?_cons_of_neg]
  cases k with
  | text s => simpa using fun e : s = name => h (congrArg Value.text e)
  | _ => simp

/-- A name has a value exactly if some key is that name. -/
theorem member?_eq_none : member? es name = none ↔ ∀ e ∈ es, e.1 ≠ .text name := by
  induction es with
  | nil => simp
  | cons e rest ih =>
    obtain ⟨k, v⟩ := e
    by_cases h : k = .text name
    · subst h
      simp
    · simp [member?_cons_of_ne h, h, ih]

theorem mem_of_member? (h : member? es name = some v) : (.text name, v) ∈ es := by
  induction es with
  | nil => simp at h
  | cons e rest ih =>
    obtain ⟨k, w⟩ := e
    by_cases hk : k = .text name
    · subst hk
      rw [member?_cons_self, Option.some_inj] at h
      exact h ▸ List.mem_cons_self
    · rw [member?_cons_of_ne hk] at h
      exact List.mem_cons_of_mem _ (ih h)

theorem member?_append : member? (es ++ fs) name = (member? es name).or (member? fs name) := by
  unfold member?
  rw [List.find?_append, Option.map_or]

/-- Looking up a text is looking up a name. -/
theorem lookup?_text : lookup? es (.text name) = member? es name := by
  induction es with
  | nil => rfl
  | cons e rest ih =>
    obtain ⟨k, v⟩ := e
    by_cases h : k = .text name
    · subst h
      rw [member?_cons_self, lookup?, List.find?_cons_of_pos]
      · rfl
      · exact same_text_right.mpr rfl
    · rw [member?_cons_of_ne h, ← ih, lookup?, lookup?, List.find?_cons_of_neg]
      exact fun hs => h (same_text_right.mp hs)

theorem lookup?_eq_none : lookup? es k = none ↔ ∀ e ∈ es, same e.1 k = false := by
  simp [lookup?]

/-- Behind a name no entry has that name again. -/
theorem KeysDiffer.member?_tail (h : KeysDiffer ((.text name, v) :: es)) : member? es name = none :=
  member?_eq_none.mpr fun _ he => ne_text_of_not_same_left (List.rel_of_pairwise_cons h he)

theorem KeysDiffer.member?_of_mem (h : KeysDiffer es) (he : (.text name, v) ∈ es) :
    member? es name = some v := by
  induction es with
  | nil => cases he
  | cons e rest ih =>
    rcases List.mem_cons.mp he with rfl | he
    · exact member?_cons_self
    · have other : e.1 ≠ .text name := ne_text_of_not_same_right (List.rel_of_pairwise_cons h he)
      exact (member?_cons_of_ne other).trans (ih h.of_cons he)

/-! ## Writing an entry -/

@[simp] theorem member?_putEntry_self : member? (putEntry es (.text name) v) name = some v := by
  induction es with
  | nil => exact member?_cons_self
  | cons e rest ih =>
    obtain ⟨k, w⟩ := e
    unfold putEntry
    split
    · next h => rw [same_text_right.mp h, member?_cons_self]
    · next h => rw [member?_cons_of_ne (fun e => h (same_text_right.mpr e)), ih]

theorem member?_putEntry_of_ne (h : k ≠ .text name) :
    member? (putEntry es k v) name = member? es name := by
  induction es with
  | nil => exact member?_cons_of_ne h
  | cons e rest ih =>
    obtain ⟨k', w⟩ := e
    unfold putEntry
    by_cases hk : k' = .text name
    · subst hk
      have differ : ¬ same (.text name) k = true := fun hs => h (same_text_left.mp hs)
      rw [if_neg differ, member?_cons_self, member?_cons_self]
    · split
      · rw [member?_cons_of_ne hk, member?_cons_of_ne hk]
      · rw [member?_cons_of_ne hk, member?_cons_of_ne hk, ih]

/-- An entry with a new key goes to the end. -/
theorem putEntry_of_lookup?_eq_none (h : lookup? es k = none) : putEntry es k v = es ++ [(k, v)] := by
  induction es with
  | nil => rfl
  | cons e rest ih =>
    obtain ⟨hk, hrest⟩ := List.forall_mem_cons.mp (lookup?_eq_none.mp h)
    rw [putEntry, if_neg (Bool.eq_false_iff.mp hk), ih (lookup?_eq_none.mpr hrest)]
    rfl

/-- Keys and values are old ones, or those of the entry. -/
theorem mem_putEntry {e : Value × Value} (h : e ∈ putEntry es k v) :
    (e.1 = k ∨ ∃ f ∈ es, e.1 = f.1) ∧ (e.2 = v ∨ ∃ f ∈ es, e.2 = f.2) := by
  induction es with
  | nil =>
    cases List.mem_singleton.mp h
    exact ⟨.inl rfl, .inl rfl⟩
  | cons f rest ih =>
    unfold putEntry at h
    split at h
    · rcases List.mem_cons.mp h with rfl | he
      · exact ⟨.inr ⟨f, List.mem_cons_self, rfl⟩, .inl rfl⟩
      · exact ⟨.inr ⟨e, List.mem_cons_of_mem _ he, rfl⟩, .inr ⟨e, List.mem_cons_of_mem _ he, rfl⟩⟩
    · rcases List.mem_cons.mp h with rfl | he
      · exact ⟨.inr ⟨_, List.mem_cons_self, rfl⟩, .inr ⟨_, List.mem_cons_self, rfl⟩⟩
      · have grow (p : Value × Value → Prop) : (∃ f ∈ rest, p f) → ∃ g ∈ f :: rest, p g :=
          fun ⟨g, hg, hp⟩ => ⟨g, List.mem_cons_of_mem _ hg, hp⟩
        exact ⟨(ih he).1.imp_right (grow _), (ih he).2.imp_right (grow _)⟩

theorem KeysDiffer.putEntry (h : KeysDiffer es) (k v : Value) : KeysDiffer (putEntry es k v) := by
  induction es with
  | nil => exact List.pairwise_singleton _ _
  | cons f rest ih =>
    obtain ⟨hf, hrest⟩ := List.pairwise_cons.mp h
    unfold Value.putEntry
    split
    · exact List.pairwise_cons.mpr ⟨hf, hrest⟩
    · next hk =>
      refine List.pairwise_cons.mpr ⟨fun e he => ?_, ih hrest⟩
      rcases (mem_putEntry he).1 with hkey | ⟨g, hg, hkey⟩
      · rw [hkey]
        exact Bool.eq_false_iff.mpr hk
      · rw [hkey]
        exact hf g hg

/-! ## Collapsing entries -/

/-- Collapsing entries to the left of one more. -/
theorem collapse_concat : collapse (es ++ [(k, v)]) = putEntry (collapse es) k v := by
  simp [collapse]

theorem keysDiffer_collapse (es : List (Value × Value)) : KeysDiffer (collapse es) := by
  induction es using List.reverseRecOn with
  | nil => exact .nil
  | append_singleton es e ih => exact collapse_concat ▸ ih.putEntry _ _

theorem mem_collapse {e : Value × Value} (h : e ∈ collapse es) :
    (∃ f ∈ es, e.1 = f.1) ∧ ∃ f ∈ es, e.2 = f.2 := by
  induction es using List.reverseRecOn generalizing e with
  | nil => cases h
  | append_singleton es f ih =>
    obtain ⟨hkey, hvalue⟩ := mem_putEntry (collapse_concat ▸ h)
    have last : f ∈ es ++ [f] := List.mem_concat_self
    refine ⟨?_, ?_⟩
    · rcases hkey with hk | ⟨g, hg, hk⟩
      · exact ⟨f, last, hk⟩
      · obtain ⟨g', hg', hk'⟩ := (ih hg).1
        exact ⟨g', List.mem_append_left _ hg', hk.trans hk'⟩
    · rcases hvalue with hv | ⟨g, hg, hv⟩
      · exact ⟨f, last, hv⟩
      · obtain ⟨g', hg', hv'⟩ := (ih hg).2
        exact ⟨g', List.mem_append_left _ hg', hv.trans hv'⟩

/-- The last entry of a name is the one that counts. -/
theorem member?_collapse (es : List (Value × Value)) (name : String) :
    member? (collapse es) name = member? es.reverse name := by
  induction es using List.reverseRecOn with
  | nil => rfl
  | append_singleton es e ih =>
    obtain ⟨k, v⟩ := e
    rw [collapse_concat, List.reverse_concat]
    by_cases h : k = .text name
    · rw [h, member?_putEntry_self, member?_cons_self]
    · rw [member?_putEntry_of_ne h, member?_cons_of_ne h, ih]

theorem keyed_collapse {P : Value → Prop} (h : ∀ e ∈ es, P e.1 ∧ Keyed P e.2) :
    Keyed P (.table (collapse es)) := by
  refine .table (keysDiffer_collapse es) (fun e he => ?_) fun e he => ?_
  · obtain ⟨f, hf, hk⟩ := (mem_collapse he).1
    exact hk ▸ (h f hf).1
  · obtain ⟨f, hf, hv⟩ := (mem_collapse he).2
    exact hv ▸ (h f hf).2

end Value

/-! ## JSON -/

namespace Json

open Value

/-- A number is no table. -/
theorem number?_not_table {cs rest : List Char} {v : Value} (h : number? cs = some (v, rest)) :
    v.isTable = false := by
  cases v with
  | table es =>
    simp only [number?] at h
    repeat' split at h
    all_goals simp at h
  | _ => rfl

/-- A value read within a bound is keyed by texts, and so are the values of entries. -/
theorem keyed_value? (fuel : Nat) :
    (∀ cs v rest, value? fuel cs = some (v, rest) → Keyed IsText v) ∧
      ∀ cs es rest, entries? fuel cs = some (es, rest) → ∀ e ∈ es, IsText e.1 ∧ Keyed IsText e.2 := by
  induction fuel with
  | zero => exact ⟨fun _ _ _ h => (nomatch h), fun _ _ _ h => (nomatch h)⟩
  | succ fuel ih =>
    obtain ⟨ihValue, ihEntries⟩ := ih
    refine ⟨fun cs v rest h => ?_, fun cs es rest h => ?_⟩
    · unfold value? at h
      split at h
      · simp only [Option.map_eq_some_iff, Prod.mk.injEq] at h
        obtain ⟨r, -, rfl, -⟩ := h
        exact .other rfl
      · split at h
        · cases h
          exact .other rfl
        · simp only [Option.map_eq_some_iff, Prod.mk.injEq] at h
          obtain ⟨r, -, rfl, -⟩ := h
          exact .other rfl
      · split at h
        · cases h
          exact .nil
        · simp only [Option.map_eq_some_iff, Prod.mk.injEq] at h
          obtain ⟨r, hr, rfl, -⟩ := h
          exact keyed_collapse (ihEntries _ _ _ hr)
      · cases v with
        | table es =>
          simp only [Option.orElse_eq_orElse, Option.orElse_eq_or, Option.or_eq_some_iff,
            Option.map_eq_some_iff, Prod.mk.injEq, reduceCtorEq, false_and, and_false, exists_false,
            false_or] at h
          exact .other (number?_not_table h.2.2.2.2.2.2)
        | _ => exact .other rfl
    · unfold entries? at h
      split at h
      · simp only [Option.bind_eq_bind, Option.bind_eq_some_iff] at h
        obtain ⟨⟨name, _⟩, -, h⟩ := h
        split at h
        · simp only [Option.bind_eq_some_iff] at h
          obtain ⟨⟨v, _⟩, hv, h⟩ := h
          have first : IsText (.text name) ∧ Keyed IsText v := ⟨⟨name, rfl⟩, ihValue _ _ _ hv⟩
          split at h
          · simp only [Option.bind_eq_some_iff, Option.some_inj, Prod.mk.injEq] at h
            obtain ⟨⟨more, _⟩, hmore, rfl, -⟩ := h
            exact List.forall_mem_cons.mpr ⟨first, ihEntries _ _ _ hmore⟩
          · cases h
            exact List.forall_mem_singleton.mpr first
          · cases h
        · cases h
      · cases h

/-- **A JSON value is keyed by texts**: an object has no name twice, at any depth. -/
theorem keyed_read {raw : String} {v : Value} (h : read raw = some v) : Keyed IsText v := by
  simp only [read] at h
  split at h
  · next hv =>
    split at h
    · cases h
      exact (keyed_value? _).1 _ _ _ hv
    · cases h
  · cases h

end Json

/-! ## YAML -/

namespace Yaml

open Value

theorem Scalar.time_not_table {s : String} {v : Value} (h : Scalar.time s = .ok v) :
    v.isTable = false := by
  cases v with
  | table es =>
    simp only [Scalar.time] at h
    repeat' split at h
    all_goals cases h
  | _ => rfl

/-- A scalar is no table. -/
theorem Scalar.value_not_table {t : Tag} {s : String} {v : Value} (h : Scalar.value t s = .ok v) :
    v.isTable = false := by
  cases t with
  | null | text =>
    cases h
    rfl
  | bool =>
    obtain ⟨_, -, hv⟩ := bind_eq_ok.mp h
    cases hv
    rfl
  | int =>
    obtain ⟨_, -, hv⟩ := bind_eq_ok.mp h
    cases hv
    rfl
  | float =>
    obtain ⟨_, -, hv⟩ := bind_eq_ok.mp h
    cases hv
    rfl
  | binary =>
    obtain ⟨_, -, hv⟩ := bind_eq_ok.mp h
    cases hv
    rfl
  | timestamp => exact Scalar.time_not_table h
  | _ => cases h

/-- A node that is read within a bound has a keyed value, and so have the entries of a mapping. -/
theorem Node.keyed_value (fuel : Nat) :
    (∀ depth n, Keyed (fun _ => True) (Node.value fuel depth n).1) ∧
      (∀ depth es, ∀ e ∈ (Node.table fuel depth es).1, Keyed (fun _ => True) e.2) ∧
      ∀ depth es, ∀ e ∈ (Node.entries fuel depth es).1, Keyed (fun _ => True) e.2 := by
  induction fuel with
  | zero =>
    refine ⟨fun _ _ => ?_, fun _ _ _ h => ?_, fun _ _ _ h => ?_⟩
    · rw [Node.value]
      exact .other rfl
    · rw [Node.table] at h
      cases h
    · rw [Node.entries] at h
      cases h
  | succ fuel ih =>
    obtain ⟨ihValue, ihTable, ihEntries⟩ := ih
    refine ⟨fun depth n => ?_, fun depth es => ?_, fun depth es e he => ?_⟩
    · unfold Node.value
      -- Only a mapping with the tag of mappings makes a table.
      split
      · split
        · exact keyed_collapse fun e he => ⟨trivial, ihTable _ _ e he⟩
        · exact .nil
      · split <;> exact .other rfl
      · split <;> exact .other rfl
      · split <;> exact .other rfl
      · split <;> exact .other rfl
      · exact .other rfl
      · exact .other rfl
      · exact .other rfl
      · dsimp only
        split
        · next v hv =>
          obtain ⟨s, -, hs⟩ := bind_eq_ok.mp hv
          exact .other (Scalar.value_not_table hs)
        · exact .other rfl
    · unfold Node.table
      split
      · exact ihEntries _ _
      · exact List.forall_mem_nil _
    · cases es with
      | nil =>
        rw [Node.entries] at he
        cases he
      | cons entry rest =>
        unfold Node.entries at he
        dsimp only at he
        split at he
        · cases he
        · rcases List.mem_cons.mp he with rfl | he
          · exact ihValue _ _
          · exact ihEntries _ _ e he

/-- **The value of a YAML text is keyed**: a mapping has no key twice, at any depth. -/
theorem keyed_read {text : String} {v : Value} (h : read text = .ok v) :
    Keyed (fun _ => True) v := by
  obtain ⟨n?, -, h⟩ := bind_eq_ok.mp h
  cases n? with
  | none =>
    cases h
    exact .other rfl
  | some n =>
    have keyed := (Node.keyed_value (3 * n.size + 3)).1 0 n
    dsimp only at h
    split at h
    · next w hw =>
      cases h
      rwa [hw] at keyed
    · cases h

end Yaml

end TreeFeatures
