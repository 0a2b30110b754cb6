import Mathlib.Data.List.Induction
import TreeFeatures.Registry

/-!
# Seeding the registry

Seeding goes through the languages one by one, and through the filetypes of each, and counts next to
the registry what it brings in. In the end it is one union: the filetypes that are told and have no
entry yet are appended, each once, in the order of their first appearances. Languages whose filetypes
cannot be told contribute nothing.

* `told`, `newcomers`: the filetypes that answers tell, and those of them that are new to a registry.
* `addAll_eq`, `seed_eq`: seeding in closed form.
* `get?_seed`, `has_seed`: entries stay, and new ones are unknown.
* **`seed_union`**: the result.
-/

namespace TreeFeatures.Registry

/-! ## What is told -/

/-- The filetypes that an answer tells. -/
def Answer.told (a : Answer) : List String :=
  match a.2 with
  | .ok filetypes => filetypes
  | .error _ => []

/-- The filetypes that answers tell, in order. -/
def told (answers : List Answer) : List String := answers.flatMap Answer.told

/-- The filetypes that are new to a registry, each at its first appearance. -/
def newcomers (r : Registry) (filetypes : List String) : List String :=
  (distinct filetypes).filter fun ft => !Assoc.has r ft

/-- Entries for filetypes about which nothing is known. -/
def unknowns (filetypes : List String) : Registry := filetypes.map fun ft => (ft, .unknown)

theorem mem_newcomers {r : Registry} {filetypes : List String} {ft : String} :
    ft ∈ newcomers r filetypes ↔ ft ∈ filetypes ∧ Assoc.get? r ft = none := by
  rw [newcomers, List.mem_filter, mem_distinct, Assoc.has, Bool.not_eq_true',
    Option.isSome_eq_false_iff, Option.isNone_iff_eq_none]

theorem nodup_newcomers (r : Registry) (filetypes : List String) :
    (newcomers r filetypes).Nodup :=
  (nodup_distinct filetypes).filter _

/-- The new filetypes come in the order of their first appearances. -/
theorem pairwise_newcomers (r : Registry) (filetypes : List String) :
    (newcomers r filetypes).Pairwise fun a b => filetypes.idxOf a < filetypes.idxOf b :=
  (pairwise_distinct filetypes).filter _

/-- One more filetype is new unless it has an entry or was among the others. -/
theorem newcomers_concat (r : Registry) (filetypes : List String) (ft : String) :
    newcomers r (filetypes ++ [ft]) =
      if Assoc.get? r ft = none ∧ ft ∉ filetypes then newcomers r filetypes ++ [ft]
      else newcomers r filetypes := by
  unfold newcomers
  rw [distinct_concat]
  by_cases hm : ft ∈ filetypes
  · rw [if_pos hm, if_neg (fun h => h.2 hm)]
  · rw [if_neg hm, List.filter_append]
    by_cases hr : Assoc.get? r ft = none
    · simp [hr, hm, Assoc.has]
    · simp [hr, Assoc.has]

theorem get?_append_unknowns (r : Registry) (filetypes : List String) (ft : String) :
    Assoc.get? (r ++ unknowns filetypes) ft =
      (Assoc.get? r ft).or (if ft ∈ filetypes then some .unknown else none) := by
  rw [Assoc.get?_append, unknowns, Assoc.get?_map_const]

/-! ## Seeding in closed form -/

/-- A seeding grown by the newcomers among filetypes. -/
def Seeding.grown (s : Seeding) (filetypes : List String) : Seeding :=
  ⟨s.registry ++ unknowns (newcomers s.registry filetypes),
    s.added + (newcomers s.registry filetypes).length⟩

/-- To bring in one more filetype is to grow by one more. -/
theorem add_grown (s : Seeding) (filetypes : List String) (ft : String) :
    (s.grown filetypes).add ft = s.grown (filetypes ++ [ft]) := by
  have entry := get?_append_unknowns s.registry (newcomers s.registry filetypes) ft
  simp only [mem_newcomers] at entry
  unfold Seeding.add Seeding.grown Assoc.has
  rw [newcomers_concat]
  dsimp only
  by_cases hr : Assoc.get? s.registry ft = none
  · by_cases hm : ft ∈ filetypes
    · rw [hr, if_pos ⟨hm, rfl⟩] at entry
      rw [entry, if_pos (by simp), if_neg (by simp [hm])]
    · rw [hr, if_neg (fun h => hm h.1)] at entry
      rw [entry, if_neg (by simp), if_pos ⟨hr, hm⟩, Assoc.put_of_get?_eq_none entry]
      simp [unknowns, Nat.add_assoc]
  · obtain ⟨a, ha⟩ := Option.ne_none_iff_exists'.mp hr
    rw [ha, Option.some_or] at entry
    rw [entry, if_pos (by simp), if_neg (by simp [ha])]

/-- Bringing in filetypes, from any count on. The induction is on the end of the list, since the
registry grows there. -/
theorem addAll_eq (s : Seeding) (filetypes : List String) : s.addAll filetypes = s.grown filetypes := by
  induction filetypes using List.reverseRecOn with
  | nil => simp [Seeding.addAll, Seeding.grown, newcomers, unknowns, distinct]
  | append_singleton before ft ih =>
    rw [← add_grown, ← ih, Seeding.addAll, List.foldl_append]
    rfl

theorem addAnswer_eq (s : Seeding) (a : Answer) : addAnswer s a = s.addAll a.told := by
  unfold addAnswer Answer.told
  cases a.2 with
  | ok filetypes => rfl
  | error f => rfl

/-- Answers are brought in filetype by filetype. -/
theorem foldl_addAnswer (s : Seeding) (answers : List Answer) :
    answers.foldl addAnswer s = s.addAll (told answers) := by
  unfold told Seeding.addAll
  rw [List.foldl_flatMap]
  refine congrArg (fun f => answers.foldl f s) ?_
  funext s a
  exact addAnswer_eq s a

/-- Seeding appends the newcomers and counts them. -/
theorem seed_eq (r : Registry) (answers : List Answer) :
    r.seed answers =
      ⟨r ++ unknowns (newcomers r (told answers)), (newcomers r (told answers)).length⟩ := by
  unfold seed
  rw [foldl_addAnswer, addAll_eq, Seeding.grown, Nat.zero_add]

theorem get?_seed (r : Registry) (answers : List Answer) (ft : String) :
    Assoc.get? (r.seed answers).registry ft =
      (Assoc.get? r ft).or (if ft ∈ told answers then some .unknown else none) := by
  rw [seed_eq, get?_append_unknowns]
  cases hr : Assoc.get? r ft with
  | some a => rfl
  | none => simp [mem_newcomers, hr]

/-- An entry was there before, or it is a new one. -/
theorem get?_seed_cases {r : Registry} {answers : List Answer} {ft : String} {a : Availability}
    (h : Assoc.get? (r.seed answers).registry ft = some a) :
    Assoc.get? r ft = some a ∨ a = .unknown := by
  rw [get?_seed] at h
  cases hr : Assoc.get? r ft with
  | some b =>
    rw [hr] at h
    exact .inl h
  | none =>
    rw [hr, Option.none_or] at h
    split at h
    · exact .inr (Option.some.inj h).symm
    · cases h

/-- Whatever is told has an entry afterwards. -/
theorem has_seed {r : Registry} {answers : List Answer} {ft : String}
    (h : Assoc.has r ft = true ∨ ft ∈ told answers) :
    Assoc.has (r.seed answers).registry ft = true := by
  unfold Assoc.has at h ⊢
  rw [get?_seed]
  cases hr : Assoc.get? r ft with
  | some a => rfl
  | none =>
    rw [hr] at h
    rw [if_pos (h.resolve_left (by simp))]
    rfl

/-- With all that is told in it, a registry is not changed. -/
theorem seed_of_has {r : Registry} {answers : List Answer}
    (h : ∀ ft ∈ told answers, Assoc.has r ft = true) : r.seed answers = ⟨r, 0⟩ := by
  have none_new : newcomers r (told answers) = [] := by
    refine List.eq_nil_iff_forall_not_mem.mpr fun ft hft => ?_
    obtain ⟨htold, hnone⟩ := mem_newcomers.mp hft
    have hsome := h ft htold
    rw [Assoc.has, hnone] at hsome
    cases hsome
  rw [seed_eq, none_new]
  simp [unknowns]

/-- A registry after entries were set, one after the other. -/
def setAll (r : Registry) (changes : List (String × Availability)) : Registry :=
  changes.foldl (fun r c => set r c.1 c.2) r

/-- Entries that are set do not forget a filetype. -/
theorem has_setAll {r : Registry} {ft : String} (changes : List (String × Availability))
    (h : Assoc.has r ft = true) : Assoc.has (setAll r changes) ft = true := by
  induction changes generalizing r with
  | nil => exact h
  | cons c rest ih => exact ih (Assoc.has_put h c.1 c.2)

/-- Seeding with some answers and then with others is seeding with all of them. -/
theorem seed_append (r : Registry) (answers more : List Answer) :
    r.seed (answers ++ more) =
      ⟨((r.seed answers).registry.seed more).registry,
        (r.seed answers).added + ((r.seed answers).registry.seed more).added⟩ := by
  have rest : r.seed (answers ++ more) = (r.seed answers).addAll (told more) := by
    rw [seed, List.foldl_append, foldl_addAnswer _ more]
    rfl
  rw [rest, addAll_eq, seed_eq (r.seed answers).registry more]
  rfl

/-! ## Asking for filetypes -/

/-- What asking for the filetypes of a language gives: a fault, nothing, or filetypes. -/
abbrev Lookup := String → Except Fault (Option (List String))

/-- The answers about languages, in order. Nothing counts as no filetypes. -/
def answersOf (lookup : Lookup) (languages : List String) : List Answer :=
  languages.map fun l => (l, (lookup l).map (·.getD []))

theorem mem_told_answersOf {lookup : Lookup} {languages : List String} {ft : String} :
    ft ∈ told (answersOf lookup languages) ↔
      ∃ l ∈ languages, ∃ filetypes, lookup l = .ok (some filetypes) ∧ ft ∈ filetypes := by
  have one : ∀ l, ft ∈ Answer.told (l, (lookup l).map (·.getD [])) ↔
      ∃ filetypes, lookup l = .ok (some filetypes) ∧ ft ∈ filetypes := by
    intro l
    rcases lookup l with f | _ | filetypes <;> simp [Answer.told, Except.map]
  simp [told, answersOf, one]

/-! ## The result -/

/-- **Seeding is a union that keeps the order.** For every registry, list of languages and way of
asking for their filetypes,

* every entry stays where and as it is; the filetypes that are told and have no entry are appended
  as unknown, each once, in the order of their first appearances;
* what is counted are the filetypes that were appended, by which the registry has grown;
* seeding with the same once more, after whatever was set since, changes nothing and counts nothing;
* seeding with further languages at once or afterwards is the same, and the counts add up. -/
theorem seed_union (r : Registry) (lookup : Lookup) (languages : List String) :
    let seeded := r.seed (answersOf lookup languages)
    (∃ fresh : List String, seeded.registry = r ++ fresh.map (fun ft => (ft, .unknown)) ∧
      (∀ ft, ft ∈ fresh ↔ Assoc.get? r ft = none ∧
        ∃ l ∈ languages, ∃ filetypes, lookup l = .ok (some filetypes) ∧ ft ∈ filetypes) ∧
      fresh.Nodup ∧
      (fresh.Pairwise fun a b => (told (answersOf lookup languages)).idxOf a <
        (told (answersOf lookup languages)).idxOf b) ∧
      seeded.added = fresh.length ∧ seeded.registry.length = r.length + seeded.added) ∧
    (∀ changes : List (String × Availability),
      (setAll seeded.registry changes).seed (answersOf lookup languages) =
        ⟨setAll seeded.registry changes, 0⟩) ∧
    ∀ more : List String,
      let rest := seeded.registry.seed (answersOf lookup more)
      r.seed (answersOf lookup (languages ++ more)) = ⟨rest.registry, seeded.added + rest.added⟩ := by
  intro seeded
  have closed : seeded = ⟨r ++ unknowns (newcomers r (told (answersOf lookup languages))),
      (newcomers r (told (answersOf lookup languages))).length⟩ := seed_eq r _
  refine ⟨⟨newcomers r (told (answersOf lookup languages)), ?_, fun ft => ?_, nodup_newcomers r _,
    pairwise_newcomers r _, ?_, ?_⟩, fun changes => ?_, fun more => ?_⟩
  · rw [closed]
    rfl
  · rw [mem_newcomers, mem_told_answersOf, and_comm]
  · rw [closed]
  · rw [closed]
    simp [unknowns]
  · exact seed_of_has fun ft hft => has_setAll changes (has_seed (.inr hft))
  · have apart : answersOf lookup (languages ++ more) =
        answersOf lookup languages ++ answersOf lookup more := List.map_append
    rw [apart]
    exact seed_append r _ _

end TreeFeatures.Registry
