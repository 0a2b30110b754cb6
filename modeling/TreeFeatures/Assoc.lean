/-!
# Finite maps that remember insertion order

A map is a list of entries. `get?` reads the first entry of a key, `put` overwrites it where it
stands or appends a new one, `remove` drops it. Every order that an answer shows (filetypes of the
registry, languages in flight, active documents) is the order in which keys were first put.

Results:
* `get?_put_self`, `get?_put_of_ne`: `put` changes the value of its own key only;
* `put_of_get?`, `put_comm`: the value that is there is written without effect, and of two keys one
  of which has an entry either may be written first;
* `keys_put`, `put_of_get?_eq_none`: overwriting keeps the keys and their order, a new key goes to the
  end;
* `get?_append`: of two maps one after the other the first one counts;
* `nodup_keys_put`: no key has two entries;
* `get?_remove_self`, `get?_remove_of_ne`: `remove` forgets its own key only;
* `remove_put_self`, `remove_of_get?_eq_none`: what was there of a key does not matter to `remove`;
* `get?_putAll_const`, `get?_foldl_remove`: the same for several keys at once;
* `filter_put`, `filter_put_of_not`, `get?_filter`: `put` and `get?` on the entries of some keys;
* `mem_distinct`, `nodup_distinct`, `pairwise_distinct`: `distinct` has the same elements, each once,
  in the order of their first appearances.
-/

namespace TreeFeatures

/-- An element is put last unless it is there: each element stays there once. -/
theorem nodup_append_new {α : Type} [DecidableEq α] {xs : List α} (h : xs.Nodup) (x : α) :
    (if x ∈ xs then xs else xs ++ [x]).Nodup := by
  split
  · exact h
  · next hx =>
    rw [List.nodup_append]
    refine ⟨h, by simp, fun a ha b hb => ?_⟩
    rw [List.mem_singleton.mp hb]
    exact fun e => hx (e ▸ ha)

/-- A finite map: entries in the order in which their keys were first written. -/
abbrev Assoc (κ α : Type) := List (κ × α)

namespace Assoc

variable {κ α : Type} [DecidableEq κ]

/-- The value of a key. -/
def get? : Assoc κ α → κ → Option α
  | [], _ => none
  | (k', v) :: rest, k => if k' = k then some v else get? rest k

/-- Whether a key has an entry. -/
def has (m : Assoc κ α) (k : κ) : Bool := (get? m k).isSome

/-- Write a key: overwrite its entry in place, or append one. -/
def put : Assoc κ α → κ → α → Assoc κ α
  | [], k, v => [(k, v)]
  | (k', v') :: rest, k, v => if k' = k then (k', v) :: rest else (k', v') :: put rest k v

/-- Forget a key. -/
def remove (m : Assoc κ α) (k : κ) : Assoc κ α := m.filter fun e => decide (e.1 ≠ k)

/-- The keys, in order. -/
def keys (m : Assoc κ α) : List κ := m.map Prod.fst

/-- Write several entries, one after the other. -/
def putAll (m : Assoc κ α) (entries : List (κ × α)) : Assoc κ α :=
  entries.foldl (fun m e => put m e.1 e.2) m

@[simp] theorem get?_put_self (m : Assoc κ α) (k : κ) (v : α) : get? (put m k v) k = some v := by
  induction m with
  | nil => simp [put, get?]
  | cons e rest ih =>
    by_cases h : e.1 = k
    · simp [put, get?, h]
    · simp [put, get?, h, ih]

theorem get?_put_of_ne (m : Assoc κ α) {k k' : κ} (v : α) (h : k ≠ k') :
    get? (put m k v) k' = get? m k' := by
  induction m with
  | nil => simp [put, get?, h]
  | cons e rest ih =>
    by_cases hk : e.1 = k
    · have hk' : ¬ e.1 = k' := fun hc => h (hk.symm.trans hc)
      simp [put, get?, hk, h]
    · rw [put, if_neg hk, get?, get?, ih]

/-- Writing the value that is there changes nothing. -/
theorem put_of_get? {m : Assoc κ α} {k : κ} {v : α} (h : get? m k = some v) : put m k v = m := by
  induction m with
  | nil => cases h
  | cons e rest ih =>
    rw [get?] at h
    rw [put]
    split at h
    · next hk =>
      rw [if_pos hk, ← Option.some.inj h]
    · next hk => rw [if_neg hk, ih h]

/-- Two keys are written in any order, if one of them has an entry already. -/
theorem put_comm {m : Assoc κ α} {k k' : κ} (hk : k ∈ keys m) (h : k ≠ k') (v v' : α) :
    put (put m k v) k' v' = put (put m k' v') k v := by
  induction m with
  | nil => cases hk
  | cons e rest ih =>
    by_cases e₁ : e.1 = k
    · have e₂ : ¬ e.1 = k' := fun e₂ => h (e₁.symm.trans e₂)
      simp [put, e₁, h]
    · have hrest : k ∈ keys rest := (List.mem_cons.mp hk).resolve_left (Ne.symm e₁)
      by_cases e₂ : e.1 = k'
      · simp [put, e₂, Ne.symm h]
      · simp [put, e₁, e₂, ih hrest]

theorem keys_put (m : Assoc κ α) (k : κ) (v : α) :
    keys (put m k v) = if k ∈ keys m then keys m else keys m ++ [k] := by
  induction m with
  | nil => simp [put, keys]
  | cons e rest ih =>
    by_cases h : e.1 = k
    · simp [put, keys, h]
    · have h' : ¬ k = e.1 := fun hc => h hc.symm
      have ih' : List.map Prod.fst (put rest k v) =
          if k ∈ List.map Prod.fst rest then List.map Prod.fst rest
          else List.map Prod.fst rest ++ [k] := ih
      by_cases hm : k ∈ List.map Prod.fst rest
      · simp only [put, h, if_false, keys, List.map_cons, ih', hm, if_true, List.mem_cons, or_true]
      · simp only [put, h, if_false, keys, List.map_cons, ih', hm, List.mem_cons, h', or_self,
          List.cons_append]

/-- A key without an entry is appended. -/
theorem put_of_get?_eq_none {m : Assoc κ α} {k : κ} (h : get? m k = none) (v : α) :
    put m k v = m ++ [(k, v)] := by
  induction m with
  | nil => rfl
  | cons e rest ih =>
    by_cases hk : e.1 = k
    · simp [get?, hk] at h
    · rw [get?, if_neg hk] at h
      rw [put, if_neg hk, ih h, List.cons_append]

/-- Two maps one after the other: the first entry of a key counts. -/
theorem get?_append (m m' : Assoc κ α) (k : κ) : get? (m ++ m') k = (get? m k).or (get? m' k) := by
  induction m with
  | nil => rfl
  | cons e rest ih =>
    by_cases hk : e.1 = k
    · simp [get?, hk]
    · simpa [get?, hk] using ih

/-- Keys with one value. -/
theorem get?_map_const (ks : List κ) (v : α) (k : κ) :
    get? (ks.map fun k => (k, v)) k = if k ∈ ks then some v else none := by
  induction ks with
  | nil => rfl
  | cons k' rest ih =>
    by_cases hk : k' = k
    · simp [get?, hk]
    · have hk' : ¬ k = k' := fun hc => hk hc.symm
      simp [get?, hk, hk', ih]

@[simp] theorem get?_remove_self (m : Assoc κ α) (k : κ) : get? (remove m k) k = none := by
  induction m with
  | nil => rfl
  | cons e rest ih =>
    by_cases h : e.1 = k
    · simpa [remove, h] using ih
    · simpa [remove, h, get?] using ih

theorem get?_remove_of_ne (m : Assoc κ α) {k k' : κ} (h : k ≠ k') :
    get? (remove m k) k' = get? m k' := by
  induction m with
  | nil => rfl
  | cons e rest ih =>
    by_cases hk : e.1 = k
    · have hk' : ¬ e.1 = k' := fun hc => h (hk.symm.trans hc)
      simpa [remove, hk, get?, h] using ih
    · have hr : remove (e :: rest) k = e :: remove rest k := by simp [remove, hk]
      rw [hr, get?, get?, ih]

/-- Forgetting a key that was just written is forgetting it. -/
theorem remove_put_self (m : Assoc κ α) (k : κ) (v : α) : remove (put m k v) k = remove m k := by
  induction m with
  | nil => simp [put, remove]
  | cons e rest ih =>
    by_cases h : e.1 = k
    · simp [put, remove, h]
    · simpa [put, remove, h] using ih

/-- Forgetting a key without an entry changes nothing. -/
theorem remove_of_get?_eq_none {m : Assoc κ α} {k : κ} (h : get? m k = none) : remove m k = m := by
  induction m with
  | nil => rfl
  | cons e rest ih =>
    by_cases hk : e.1 = k
    · simp [get?, hk] at h
    · rw [get?, if_neg hk] at h
      have hr : remove (e :: rest) k = e :: remove rest k := by simp [remove, hk]
      rw [hr, ih h]

theorem nodup_keys_put {m : Assoc κ α} (h : (keys m).Nodup) (k : κ) (v : α) :
    (keys (put m k v)).Nodup := by
  rw [keys_put]
  exact nodup_append_new h k

/-- A key with a value is among the keys. -/
theorem mem_keys_of_get? {m : Assoc κ α} {k : κ} {v : α} (h : get? m k = some v) : k ∈ keys m := by
  induction m with
  | nil => exact absurd h (by simp [get?])
  | cons e rest ih =>
    rw [get?] at h
    split at h
    · next hk => exact hk ▸ List.mem_cons_self
    · exact List.mem_cons_of_mem _ (ih h)

theorem has_iff {m : Assoc κ α} {k : κ} : has m k = true ↔ k ∈ keys m := by
  induction m with
  | nil => simp [has, get?, keys]
  | cons e rest ih =>
    unfold has keys at ih ⊢
    by_cases hk : e.1 = k
    · simp [get?, hk]
    · have hk' : ¬ k = e.1 := fun hc => hk hc.symm
      simpa [get?, hk, hk'] using ih

/-- Writing a key forgets none. -/
theorem has_put {m : Assoc κ α} {k : κ} (h : has m k = true) (k' : κ) (v : α) :
    has (put m k' v) k = true := by
  unfold has at h ⊢
  by_cases e : k' = k
  · rw [e, get?_put_self]
    rfl
  · rw [get?_put_of_ne _ _ e]
    exact h

/-- Writing one value for several keys. -/
theorem get?_putAll_const (m : Assoc κ α) (ks : List κ) (v : α) (k : κ) :
    get? (putAll m (ks.map fun k => (k, v))) k = if k ∈ ks then some v else get? m k := by
  induction ks generalizing m with
  | nil => rfl
  | cons k' rest ih =>
    have step : putAll m ((k' :: rest).map fun k => (k, v)) =
        putAll (put m k' v) (rest.map fun k => (k, v)) := rfl
    rw [step, ih]
    by_cases hr : k ∈ rest
    · simp [hr]
    · by_cases hk : k' = k
      · simp [hk]
      · have hk' : ¬ k = k' := fun hc => hk hc.symm
        simp [hr, hk', get?_put_of_ne m v hk]

/-- Forgetting several keys. -/
theorem get?_foldl_remove (m : Assoc κ α) (ks : List κ) (k : κ) :
    get? (ks.foldl remove m) k = if k ∈ ks then none else get? m k := by
  induction ks generalizing m with
  | nil => rfl
  | cons k' rest ih =>
    rw [List.foldl_cons, ih]
    by_cases hr : k ∈ rest
    · simp [hr]
    · by_cases hk : k' = k
      · simp [hk]
      · have hk' : ¬ k = k' := fun hc => hk hc.symm
        simp [hr, hk', get?_remove_of_ne m hk]

/-- Writing a key that a filter drops does not show. -/
theorem filter_put_of_not {p : κ → Bool} (m : Assoc κ α) {k : κ} (v : α) (h : p k = false) :
    (put m k v).filter (fun e => p e.1) = m.filter fun e => p e.1 := by
  induction m with
  | nil => simp [put, h]
  | cons e rest ih =>
    by_cases hk : e.1 = k
    · simp [put, hk, h]
    · simp [put, hk, List.filter_cons, ih]

/-- Writing a key that a filter lets through may come before or after it. -/
theorem filter_put {p : κ → Bool} (m : Assoc κ α) {k : κ} (v : α) (h : p k = true) :
    (put m k v).filter (fun e => p e.1) = put (m.filter fun e => p e.1) k v := by
  induction m with
  | nil => simp [put, h]
  | cons e rest ih =>
    by_cases hk : e.1 = k
    · simp [put, hk, h]
    · by_cases hp : p e.1
      · simp [put, hk, hp, ih]
      · simp [put, hk, hp, ih]

theorem get?_filter {p : κ → Bool} (m : Assoc κ α) {k : κ} (h : p k = true) :
    get? (m.filter fun e => p e.1) k = get? m k := by
  induction m with
  | nil => rfl
  | cons e rest ih =>
    by_cases hk : e.1 = k
    · simp [get?, hk, h]
    · by_cases hp : p e.1
      · simp [get?, hk, hp, ih]
      · simp [get?, hk, hp, ih]

end Assoc

/-- The elements without repetitions, in order of first appearance. -/
def distinct {α : Type} [DecidableEq α] (xs : List α) : List α :=
  xs.foldl (fun seen x => if x ∈ seen then seen else seen ++ [x]) []

section Distinct

variable {α : Type} [DecidableEq α]

/-- The loop of `distinct` from any list seen so far. -/
theorem distinct_loop (xs seen : List α) (hs : seen.Nodup) :
    (xs.foldl (fun seen x => if x ∈ seen then seen else seen ++ [x]) seen).Nodup ∧
      ∀ y, y ∈ xs.foldl (fun seen x => if x ∈ seen then seen else seen ++ [x]) seen ↔
        y ∈ seen ∨ y ∈ xs := by
  induction xs generalizing seen with
  | nil => exact ⟨hs, fun y => by simp⟩
  | cons x rest ih =>
    rw [List.foldl_cons]
    by_cases hx : x ∈ seen
    · rw [if_pos hx]
      refine ⟨(ih seen hs).1, fun y => ?_⟩
      rw [(ih seen hs).2, List.mem_cons]
      exact ⟨fun h => h.imp_right .inr,
        fun h => h.elim .inl fun h => h.elim (fun e => .inl (e ▸ hx)) .inr⟩
    · have hs' := nodup_append_new hs x
      rw [if_neg hx] at hs' ⊢
      refine ⟨(ih _ hs').1, fun y => ?_⟩
      rw [(ih _ hs').2, List.mem_append, List.mem_singleton, List.mem_cons, or_assoc]

theorem nodup_distinct (xs : List α) : (distinct xs).Nodup := (distinct_loop xs [] .nil).1

@[simp] theorem mem_distinct {xs : List α} {x : α} : x ∈ distinct xs ↔ x ∈ xs := by
  have := (distinct_loop xs [] .nil).2 x
  rw [distinct, this]
  simp

theorem distinct_concat (xs : List α) (x : α) :
    distinct (xs ++ [x]) = if x ∈ xs then distinct xs else distinct xs ++ [x] := by
  have last : distinct (xs ++ [x]) =
      if x ∈ distinct xs then distinct xs else distinct xs ++ [x] := by
    rw [distinct, List.foldl_append]
    rfl
  rw [last]
  simp only [mem_distinct]

/-- The elements of a list in the order in which `distinct` has them, and more of the list. -/
theorem pairwise_distinct_append (xs ys : List α)
    (h : (distinct xs).Pairwise fun a b => xs.idxOf a < xs.idxOf b) :
    (distinct (xs ++ ys)).Pairwise fun a b => (xs ++ ys).idxOf a < (xs ++ ys).idxOf b := by
  induction ys generalizing xs with
  | nil => simpa using h
  | cons y rest ih =>
    have shifted : xs ++ y :: rest = (xs ++ [y]) ++ rest := by simp
    rw [shifted]
    refine ih (xs ++ [y]) ?_
    have before : ∀ {a}, a ∈ distinct xs → (xs ++ [y]).idxOf a = xs.idxOf a := fun ha => by
      rw [List.idxOf_append, if_pos (mem_distinct.mp ha)]
    have kept : (distinct xs).Pairwise fun a b => (xs ++ [y]).idxOf a < (xs ++ [y]).idxOf b :=
      h.imp_of_mem fun ha hb hab => by rwa [before ha, before hb]
    rw [distinct_concat]
    split
    · exact kept
    · next hy =>
      refine List.pairwise_append.mpr ⟨kept, List.pairwise_singleton _ _, fun a ha b hb => ?_⟩
      rw [List.mem_singleton.mp hb, before ha, List.idxOf_append, if_neg hy]
      exact Nat.lt_of_lt_of_le (List.idxOf_lt_length_of_mem (mem_distinct.mp ha))
        (Nat.le_add_left _ _)

/-- The elements come in the order of their first appearances. -/
theorem pairwise_distinct (xs : List α) :
    (distinct xs).Pairwise fun a b => xs.idxOf a < xs.idxOf b :=
  pairwise_distinct_append [] xs .nil

end Distinct

end TreeFeatures
