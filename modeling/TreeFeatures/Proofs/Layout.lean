import TreeFeatures.Bundled

/-!
# The layout of bundled query files

A language is bundled if some path ends with the components `queries`, the language and
`highlights.scm`. The scan finds this out by looking at the name of the path, of its parent and of
the parent of that. Roots, short paths and repeated components make no difference.

* `pieces_eq_splitOn`, `components_append_slash`: the components of a text are the pieces between its
  slashes, and two texts with a slash in between have the components of the one and of the other.
* `name_eq_iff`: a name that is not empty is the last component.
* `languageOf?_eq_some_iff`, `mem_scan_iff`: what counts are the last three components.
* **`scan_layout`**: the result.
-/

namespace TreeFeatures

namespace Path

/-! ## Components -/

theorem pieces_eq_splitOn (cs : List Char) : pieces cs = cs.splitOn '/' := by
  induction cs with
  | nil => rfl
  | cons c cs ih =>
    rw [pieces, List.splitOn_cons_eq_if_modifyHead, ih]
    by_cases h : c = '/'
    · simp [h]
    · simp only [h, beq_iff_eq, if_false]
      cases hs : cs.splitOn '/' with
      | nil => exact absurd hs (List.splitOn_ne_nil '/' cs)
      | cons piece rest => rfl

/-- No piece has a slash in it. -/
theorem slash_notMem_of_mem_pieces {cs piece : List Char} (h : piece ∈ pieces cs) :
    '/' ∉ piece := by
  induction cs generalizing piece with
  | nil =>
    rw [pieces, List.mem_singleton] at h
    rw [h]
    exact List.not_mem_nil
  | cons c cs ih =>
    rw [pieces] at h
    split at h
    · rcases List.mem_cons.mp h with rfl | h
      · exact List.not_mem_nil
      · exact ih h
    · next hc =>
      split at h
      · next first rest hs =>
        rcases List.mem_cons.mp h with rfl | h
        · rw [List.mem_cons, not_or]
          exact ⟨Ne.symm hc, ih (hs ▸ List.mem_cons_self)⟩
        · exact ih (hs ▸ List.mem_cons_of_mem first h)
      · rw [List.mem_singleton.mp h, List.mem_singleton]
        exact Ne.symm hc

/-- A component is not empty and has no slash in it. -/
theorem of_mem_components {cs : List Char} {x : String} (h : x ∈ components cs) :
    x ≠ "" ∧ '/' ∉ x.toList := by
  obtain ⟨piece, hp, rfl⟩ := List.mem_map.mp h
  rw [List.mem_filter, decide_eq_true_iff] at hp
  rw [String.toList_ofList]
  refine ⟨fun e => hp.2.1 ?_, slash_notMem_of_mem_pieces hp.1⟩
  rw [← String.toList_ofList (l := piece), e]
  rfl

theorem components_append_slash (a b : List Char) :
    components (a ++ '/' :: b) = components a ++ components b := by
  simp only [components, pieces_eq_splitOn, List.splitOn_append_cons_self, List.filter_append,
    List.map_append]

/-- Slashes at the end add no component. -/
theorem components_append_slashes (a : List Char) (n : Nat) :
    components (a ++ List.replicate n '/') = components a := by
  induction n generalizing a with
  | zero => rw [List.replicate_zero, List.append_nil]
  | succ n ih =>
    have none : components [] = [] := rfl
    have rest : components (List.replicate n '/') = [] := (ih []).trans none
    rw [List.replicate_succ, components_append_slash, rest, List.append_nil]

theorem parts_append_slash (lead s : String) :
    (ofString (lead ++ "/" ++ s)).parts = (ofString lead).parts ++ (ofString s).parts := by
  have split : (lead ++ "/" ++ s).toList = lead.toList ++ '/' :: s.toList := by simp
  exact (congrArg components split).trans (components_append_slash _ _)

/-! ## Names and parents -/

/-- A name that is not empty is the last component. -/
theorem name_eq_iff {p : Path} {x : String} (hx : x ≠ "") :
    p.name = x ↔ ∃ before, p.parts = before ++ [x] := by
  unfold name
  constructor
  · intro h
    cases hp : p.parts.getLast? with
    | none =>
      rw [hp] at h
      exact absurd h.symm hx
    | some y =>
      rw [hp] at h
      obtain ⟨before, hparts⟩ := List.getLast?_eq_some_iff.mp hp
      exact ⟨before, h ▸ hparts⟩
  · rintro ⟨before, hparts⟩
    rw [hparts, List.getLast?_concat]
    rfl

/-- The parent of a path with a last component. -/
theorem parent_parts {p : Path} {before : List String} {x : String} (h : p.parts = before ++ [x]) :
    p.parent.parts = before := by
  rw [parent, h, List.dropLast_concat]

end Path

namespace Bundled

/-! ## What counts -/

/-- A path that is a highlight query has the layout of one, and tells the language. -/
theorem languageOf?_eq_some_iff {p : Path} {x : String} :
    languageOf? p = some x ↔ [queryDirectory, x, highlightsFile] <:+ p.parts := by
  have hd : queryDirectory ≠ "" := by decide
  have hf : highlightsFile ≠ "" := by decide
  unfold languageOf?
  constructor
  · intro h
    split at h
    · next hnames =>
      obtain ⟨front, hparts⟩ := (Path.name_eq_iff hf).mp hnames.1
      have parent := Path.parent_parts hparts
      obtain ⟨before, hgrand⟩ := (Path.name_eq_iff hd).mp hnames.2
      -- The parent has a parent with a last component, so it is not empty itself.
      rw [Path.parent, parent] at hgrand
      have hne : front ≠ [] := by
        rintro rfl
        simp at hgrand
      have hlast : p.parent.name = front.getLast hne := by
        rw [Path.name, parent, List.getLast?_eq_some_getLast hne]
        rfl
      rw [hlast] at h
      refine ⟨before, ?_⟩
      calc before ++ [queryDirectory, x, highlightsFile]
          = (before ++ [queryDirectory]) ++ [x] ++ [highlightsFile] := by simp
        _ = (front.dropLast ++ [front.getLast hne]) ++ [highlightsFile] := by
          rw [← hgrand, Option.some.inj h]
        _ = p.parts := by rw [List.dropLast_concat_getLast, hparts]
    · cases h
  · rintro ⟨before, hparts⟩
    have whole : p.parts = (before ++ [queryDirectory, x]) ++ [highlightsFile] := by
      rw [← hparts]
      simp
    have parent : p.parent.parts = (before ++ [queryDirectory]) ++ [x] := by
      rw [Path.parent_parts whole]
      simp
    have grand : p.parent.parent.parts = before ++ [queryDirectory] := Path.parent_parts parent
    have name : p.parent.name = x := by
      rw [Path.name, parent, List.getLast?_concat]
      rfl
    rw [if_pos ⟨(Path.name_eq_iff hf).mpr ⟨_, whole⟩, (Path.name_eq_iff hd).mpr ⟨_, grand⟩⟩, name]

/-- A text is the path of the highlight query of a language: of what stands between its slashes,
empty pieces and points left out, the last three are `queries`, the language and `highlights.scm`. -/
def LaidOut (p x : String) : Prop :=
  ["queries", x, "highlights.scm"] <:+
    ((p.toList.splitOn '/').filter fun piece => piece ≠ [] ∧ piece ≠ ['.']).map String.ofList

theorem languageOf?_ofString_iff {p x : String} :
    languageOf? (Path.ofString p) = some x ↔ LaidOut p x := by
  rw [languageOf?_eq_some_iff, LaidOut, ← Path.pieces_eq_splitOn]
  rfl

theorem mem_scan_iff {paths : List String} {x : String} :
    x ∈ scan paths ↔ ∃ p ∈ paths, LaidOut p x := by
  simp only [scan, mem_distinct, List.mem_filterMap, languageOf?_ofString_iff]

theorem nodup_scan (paths : List String) : (scan paths).Nodup := nodup_distinct _

/-- Paths that tell the same languages can stand for each other. -/
theorem scan_congr {p q : String} (h : languageOf? (Path.ofString p) = languageOf? (Path.ofString q))
    (before after : List String) : scan (before ++ p :: after) = scan (before ++ q :: after) := by
  simp only [scan, List.filterMap_append, List.filterMap_cons, h]

/-- Directories in front of a highlight query do not matter. -/
theorem languageOf?_append_slash {s x : String} (lead : String)
    (h : languageOf? (Path.ofString s) = some x) :
    languageOf? (Path.ofString (lead ++ "/" ++ s)) = some x := by
  rw [languageOf?_eq_some_iff] at h ⊢
  rw [Path.parts_append_slash]
  exact h.trans (List.suffix_append _ _)

/-- Only the components matter. -/
theorem languageOf?_congr {p q : Path} (h : p.parts = q.parts) : languageOf? p = languageOf? q := by
  unfold languageOf? Path.name Path.parent
  rw [h]

/-! ## The result -/

/-- **The scan finds the languages that the layout tells.**

* A language is found exactly if some path has `queries`, the language and `highlights.scm` for its
  last three components. So it is not empty and has no slash in it.
* Each language is found once. Order and repetition of the paths do not matter, and what is found
  among two lists of paths is what is found in the one or in the other.
* For a highlight query it does not matter which directories stand in front of it, be they none, a
  point or any others; and for no path do slashes at its end. -/
theorem scan_layout :
    (∀ paths x, x ∈ scan paths ↔ ∃ p ∈ paths, LaidOut p x) ∧
    (∀ paths, ∀ x ∈ scan paths, x ≠ "" ∧ '/' ∉ x.toList) ∧
    (∀ paths, (scan paths).Nodup) ∧
    (∀ paths paths', (∀ p, p ∈ paths ↔ p ∈ paths') → (scan paths).Perm (scan paths')) ∧
    (∀ paths paths' x, x ∈ scan (paths ++ paths') ↔ x ∈ scan paths ∨ x ∈ scan paths') ∧
    (∀ s lead before after, scan [s] ≠ [] →
      scan (before ++ (lead ++ "/" ++ s) :: after) = scan (before ++ s :: after)) ∧
    ∀ s n before after, scan (before ++ (s ++ String.ofList (List.replicate n '/')) :: after) =
      scan (before ++ s :: after) := by
  refine ⟨fun _ _ => mem_scan_iff, fun paths x hx => ?_, nodup_scan, fun paths paths' h => ?_,
    fun paths paths' x => ?_, fun s lead before after hs => ?_, fun s n before after => ?_⟩
  · obtain ⟨p, -, hp⟩ := mem_scan_iff.mp hx
    have parts := languageOf?_eq_some_iff.mp (languageOf?_ofString_iff.mpr hp)
    exact Path.of_mem_components (parts.subset (by simp))
  · refine (List.perm_ext_iff_of_nodup (nodup_scan _) (nodup_scan _)).mpr fun x => ?_
    simp only [mem_scan_iff, h]
  · simp only [mem_scan_iff, List.mem_append, or_and_right, exists_or]
  · obtain ⟨x, hx⟩ := List.exists_mem_of_ne_nil _ hs
    obtain ⟨q, hq, hlaid⟩ := mem_scan_iff.mp hx
    rw [List.mem_singleton.mp hq, ← languageOf?_ofString_iff] at hlaid
    exact scan_congr ((languageOf?_append_slash lead hlaid).trans hlaid.symm) before after
  · refine scan_congr (languageOf?_congr ?_) before after
    have split : (s ++ String.ofList (List.replicate n '/')).toList =
        s.toList ++ List.replicate n '/' := by simp
    exact (congrArg Path.components split).trans (Path.components_append_slashes _ n)

/-- A point and more slashes in front of a highlight query, next to a path that is too short. -/
theorem scan_layout_leading :
    scan ["queries/lua/highlights.scm"] ≠ [] ∧
      scan (["lua/highlights.scm"] ++ ("//rt/." ++ "/" ++ "queries/lua/highlights.scm") :: []) =
        scan (["lua/highlights.scm"] ++ "queries/lua/highlights.scm" :: []) := by
  have found : scan ["queries/lua/highlights.scm"] ≠ [] := by decide +kernel
  obtain ⟨-, -, -, -, -, lead, -⟩ := scan_layout
  exact ⟨found, lead _ _ _ _ found⟩

end Bundled

end TreeFeatures
