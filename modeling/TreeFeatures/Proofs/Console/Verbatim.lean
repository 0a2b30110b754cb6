import Mathlib.Data.List.Infix
import TreeFeatures.Console.Markup

/-!
# Texts that are shown as they are

A text that is given to the console may come out as another one, or not at all: tags are taken out,
backslashes in front of a bracket and some controls are left out, and names of pictures give way to
pictures. `Verbatim` says that there is none of this in a text.

Nothing that is done to a text can undo what else is done to it: without pictures a text only loses
characters, and where there are pictures there are fewer colons than before.

* `Tagged`, `codes`: a tag stands in a text, and the names between colons that are read in it.
* `illustrate_cases`: a text stays as it is, or it loses colons.
* `pieces_sublist`, `pieces_length_lt`: the text of the pieces is part of the text, and less than all
  of it if there is a tag.
* **`render?_eq_self_iff`**: the texts that are shown as they are. `Verbatim.of_ordinary`: most names.
-/

namespace TreeFeatures.Markup

/-! ## Tags -/

/-- A tag stands in a text, be it that a backslash is in front of it. -/
def Tagged (cs : List Char) : Prop :=
  ∃ c inside, beginsTag c = true ∧ (∀ x ∈ inside, isPlain x = true) ∧
    '[' :: c :: inside ++ [']'] <:+: cs

theorem tag?_eq_some {t tag after : List Char} (h : tag? t = some (tag, after)) :
    ∃ c inside, beginsTag c = true ∧ (∀ x ∈ inside, isPlain x = true) ∧ tag = c :: inside ∧
      t = '[' :: c :: inside ++ ']' :: after := by
  unfold tag? at h
  split at h
  · next c rest =>
    split at h
    · next hc =>
      split at h
      · next after' hd =>
        cases h
        refine ⟨c, rest.takeWhile isPlain, hc, List.all_eq_true.mp List.all_takeWhile, rfl, ?_⟩
        rw [List.cons_append, List.cons_append, ← hd, List.takeWhile_append_dropWhile]
      · cases h
    · cases h
  · cases h

theorem tag?_of_front {c : Char} {inside : List Char} (after : List Char) (hc : beginsTag c = true)
    (hi : ∀ x ∈ inside, isPlain x = true) :
    tag? ('[' :: c :: inside ++ ']' :: after) = some (c :: inside, after) := by
  have closes : isPlain ']' = false := by decide
  have front : (inside ++ ']' :: after).takeWhile isPlain = inside := by
    rw [List.takeWhile_append_of_pos hi, List.takeWhile_cons, closes]
    simp
  have rest : (inside ++ ']' :: after).dropWhile isPlain = ']' :: after := by
    rw [List.dropWhile_append_of_pos hi, List.dropWhile_cons, closes]
    rfl
  unfold tag?
  simp only [List.cons_append, hc, if_true, rest, front]

/-- A tag at the front or further back. -/
theorem tagged_cons_iff {c : Char} {cs : List Char} :
    Tagged (c :: cs) ↔ tag? (c :: cs) ≠ none ∨ Tagged cs := by
  constructor
  · rintro ⟨b, inside, hb, hi, htag⟩
    rcases List.infix_cons_iff.mp htag with ⟨after, hfront⟩ | hback
    · refine .inl ?_
      rw [← hfront, List.append_assoc, List.singleton_append, tag?_of_front after hb hi]
      exact Option.some_ne_none _
    · exact .inr ⟨b, inside, hb, hi, hback⟩
  · rintro (htag | ⟨b, inside, hb, hi, hback⟩)
    · obtain ⟨⟨tag, after⟩, htag⟩ := Option.ne_none_iff_exists'.mp htag
      obtain ⟨b, inside, hb, hi, -, hfront⟩ := tag?_eq_some htag
      refine ⟨b, inside, hb, hi, [], after, ?_⟩
      rw [hfront]
      simp
    · exact ⟨b, inside, hb, hi, hback.trans (List.suffix_cons c cs).isInfix⟩

theorem not_tagged_nil : ¬ Tagged [] := by
  rintro ⟨c, inside, -, -, htag⟩
  cases List.infix_nil.mp htag

theorem Tagged.mem {cs : List Char} (h : Tagged cs) : '[' ∈ cs := by
  obtain ⟨c, inside, -, -, htag⟩ := h
  exact htag.subset List.mem_cons_self

/-! ## Backslashes in front of brackets -/

theorem unescape_sublist (cs : List Char) : (unescape cs).Sublist cs := by
  fun_induction unescape cs with
  | case1 rest ih => exact .cons _ (ih.cons_cons _)
  | case2 c rest _ ih => exact ih.cons_cons c
  | case3 => exact .slnil

theorem unescape_eq_self_iff {cs : List Char} : unescape cs = cs ↔ ¬ ['\\', '['] <:+: cs := by
  fun_induction unescape cs with
  | case1 rest ih =>
    refine ⟨fun h => ?_, fun h => absurd ⟨[], rest, rfl⟩ h⟩
    have shorter := (unescape_sublist rest).length_le
    have equal := congrArg List.length h
    simp only [List.length_cons] at equal
    omega
  | case2 c rest hfront ih =>
    rw [List.cons_inj_right, ih, not_iff_not, List.infix_cons_iff]
    refine ⟨.inr, fun h => h.resolve_left ?_⟩
    rintro ⟨after, hprefix⟩
    obtain ⟨rfl, hrest⟩ := List.cons.inj hprefix
    exact hfront after rfl hrest.symm
  | case3 => simp

/-! ## Pictures -/

/-- The names between colons that are read in a text, in order. A name has no blank in it, and what
ends a name does not begin another one. The argument in front is as that of `illustrate`. -/
def codes : Option (List Char) → List Char → List (List Char)
  | _, [] => []
  | none, c :: cs => if c = ':' then codes (some []) cs else codes none cs
  | some name, c :: cs =>
    if c = ':' then name.reverse :: codes none cs
    else if isBlank c then codes none cs
    else codes (some (c :: name)) cs

/-- A text with what stands in front of it. -/
def whole : Option (List Char) → List Char → List Char
  | none, cs => cs
  | some name, cs => ':' :: name.reverse ++ cs

variable (known : Pictures)

/-- A text stays as it is if no picture is known for what is read in it, and else it has fewer colons
than before. -/
theorem illustrate_cases (reading : Option (List Char)) (cs : List Char) :
    (illustrate known reading cs = whole reading cs ∧
      ∀ name ∈ codes reading cs, known.picture? name = none) ∨
    ((illustrate known reading cs).count ':' < (whole reading cs).count ':' ∧
      ∃ name ∈ codes reading cs, known.picture? name ≠ none) := by
  fun_induction illustrate known reading cs with
  | case1 => exact .inl ⟨rfl, by simp [codes]⟩
  | case2 cs ih => simpa [codes, whole] using ih
  | case3 c cs hc ih =>
    simp only [codes, if_neg hc, whole] at ih ⊢
    rcases ih with ⟨he, hn⟩ | ⟨hlt, hn⟩
    · exact .inl ⟨by rw [he], hn⟩
    · refine .inr ⟨?_, hn⟩
      rw [List.count_cons_of_ne hc, List.count_cons_of_ne hc]
      exact hlt
  | case4 name => exact .inl ⟨by simp [whole], by simp [codes]⟩
  | case5 name cs ih =>
    -- The colon ends a name: if a picture is known for it, both colons go.
    have behind : (illustrate known none cs).count ':' ≤ cs.count ':' := by
      rcases ih with ⟨he, -⟩ | ⟨hlt, -⟩
      · rw [he]
        exact Nat.le_refl _
      · exact Nat.le_of_lt hlt
    simp only [codes, if_true, whole, List.mem_cons, forall_eq_or_imp, exists_eq_or_imp] at ih ⊢
    cases hp : known.picture? name.reverse with
    | none =>
      rcases ih with ⟨he, hn⟩ | ⟨hlt, hn⟩
      · refine .inl ⟨?_, rfl, hn⟩
        rw [he]
        simp
      · refine .inr ⟨?_, .inr hn⟩
        simp only [Option.getD_none, List.count_append, List.count_cons, List.count_nil]
        omega
    | some picture =>
      refine .inr ⟨?_, .inl (Option.some_ne_none _)⟩
      have colonless := List.count_eq_zero.mpr (known.colonless _ _ hp)
      simp only [Option.getD_some, List.count_append, List.count_cons, colonless]
      simp
      omega
  | case6 name c cs hc hb ih =>
    simp only [codes, if_neg hc, if_pos hb, whole] at ih ⊢
    rcases ih with ⟨he, hn⟩ | ⟨hlt, hn⟩
    · exact .inl ⟨by rw [he], hn⟩
    · refine .inr ⟨?_, hn⟩
      simp only [List.count_append, List.count_cons]
      omega
  | case7 name c cs hc hb ih => simpa [codes, if_neg hc, hb, whole] using ih

theorem count_illustrate_le (cs : List Char) :
    (illustrate known none cs).count ':' ≤ cs.count ':' := by
  rcases illustrate_cases known none cs with ⟨he, -⟩ | ⟨hlt, -⟩
  · rw [he]
    exact Nat.le_refl _
  · exact Nat.le_of_lt hlt

/-! ## Pieces -/

/-- The text of pieces, without the tags. -/
def textOf (ps : List Piece) : List Char :=
  ps.flatMap fun
    | .text cs => cs
    | .tag _ => []

theorem textOf_append (ps qs : List Piece) : textOf (ps ++ qs) = textOf ps ++ textOf qs :=
  List.flatMap_append

theorem textOf_plain (reversed : List Char) : textOf (plain reversed) = reversed.reverse := by
  unfold plain
  cases reversed with
  | nil => rfl
  | cons c cs => simp [textOf]

theorem textOf_escapedTag (backslashes : Nat) (tag : List Char) :
    textOf (escapedTag backslashes tag) = List.replicate (backslashes / 2) '\\' ++
      if backslashes % 2 = 0 then [] else '[' :: tag ++ [']'] := by
  unfold escapedTag textOf
  rw [List.flatMap_append]
  congr 1
  · split
    · next h => simp [Nat.div_eq_of_lt h]
    · simp
  · split <;> simp

/-- Of a tag with backslashes in front of it, something is left out. -/
theorem textOf_escapedTag_sublist (backslashes : Nat) (tag : List Char) :
    (textOf (escapedTag backslashes tag)).Sublist
        (List.replicate backslashes '\\' ++ ('[' :: tag ++ [']'])) ∧
      (textOf (escapedTag backslashes tag)).length < backslashes + (tag.length + 2) := by
  have fewer : (List.replicate (backslashes / 2) '\\').Sublist (List.replicate backslashes '\\') :=
    List.replicate_sublist_replicate _ |>.mpr (Nat.div_le_self _ _)
  rw [textOf_escapedTag]
  split
  · constructor
    · exact fewer.append (List.nil_sublist _)
    · simp only [List.length_append, List.length_replicate, List.length_nil]
      omega
  · constructor
    · exact fewer.append (List.Sublist.refl _)
    · simp only [List.length_append, List.length_replicate, List.length_cons, List.length_nil]
      omega

/-- A text with backslashes and a tag at its front. -/
theorem front_of_tag? {cs tag after : List Char}
    (h : tag? (cs.drop (cs.takeWhile (· = '\\')).length) = some (tag, after)) :
    cs = List.replicate (cs.takeWhile (· = '\\')).length '\\' ++ ('[' :: tag ++ [']']) ++ after := by
  obtain ⟨c, inside, -, -, rfl, hfront⟩ := tag?_eq_some h
  have backslashes : cs.takeWhile (· = '\\') =
      List.replicate (cs.takeWhile (· = '\\')).length '\\' := by
    refine List.eq_replicate_iff.mpr ⟨rfl, fun x hx => ?_⟩
    simpa using List.all_eq_true.mp List.all_takeWhile x hx
  have front : cs.take (cs.takeWhile (· = '\\')).length = cs.takeWhile (· = '\\') :=
    (List.prefix_iff_eq_take.mp (List.takeWhile_prefix _)).symm
  have split := List.take_append_drop (cs.takeWhile (· = '\\')).length cs
  rw [front, hfront, backslashes] at split
  exact split.symm.trans (by simp)

/-- What is no tag is taken into the pieces, and of what is one something is left out. -/
theorem textOf_pieces (bound : Nat) (reversed cs : List Char) :
    (textOf (pieces bound reversed cs)).Sublist (reversed.reverse ++ cs) ∧
      (cs.length ≤ bound → Tagged cs →
        (textOf (pieces bound reversed cs)).length < reversed.length + cs.length) := by
  induction bound generalizing reversed cs with
  | zero =>
    refine ⟨by simp [pieces, textOf_plain], fun hb htag => ?_⟩
    rw [List.eq_nil_of_length_eq_zero (Nat.le_zero.mp hb)] at htag
    exact absurd htag not_tagged_nil
  | succ bound ih =>
    cases cs with
    | nil => exact ⟨by simp [pieces, textOf_plain], fun _ htag => absurd htag not_tagged_nil⟩
    | cons c cs =>
      unfold pieces
      dsimp only
      split
      · next tag after htag =>
        have hcs := front_of_tag? htag
        obtain ⟨part, shorter⟩ := textOf_escapedTag_sublist
          ((c :: cs).takeWhile (· = '\\')).length tag
        have rest := (ih [] after).1
        rw [textOf_append, textOf_append, textOf_plain]
        constructor
        · rw [List.append_assoc]
          refine (List.Sublist.refl _).append ?_
          conv => rhs; rw [hcs]
          exact part.append rest
        · intro _ _
          have length := congrArg List.length hcs
          have after := rest.length_le
          simp only [List.length_append, List.length_replicate, List.length_cons, List.length_nil,
            List.length_reverse, List.reverse_nil, List.nil_append] at length after shorter ⊢
          omega
      · next hnone =>
        obtain ⟨part, shorter⟩ := ih (c :: reversed) cs
        constructor
        · simpa using part
        · intro hb htag
          have back : Tagged cs := by
            refine (tagged_cons_iff.mp htag).resolve_left fun hfront => hfront ?_
            by_cases hc : c = '\\'
            · subst hc
              rfl
            · rwa [List.takeWhile_cons_of_neg (by simpa using hc)] at hnone
          have fewer := shorter (by simpa using hb) back
          simp only [List.length_cons] at fewer ⊢
          omega

theorem pieces_of_not_tagged {bound : Nat} {reversed cs : List Char} (h : ¬ Tagged cs) :
    pieces bound reversed cs = plain (cs.reverse ++ reversed) := by
  induction bound generalizing reversed cs with
  | zero => rfl
  | succ bound ih =>
    cases cs with
    | nil => rfl
    | cons c cs =>
      have back : ¬ Tagged cs := fun hc => h (tagged_cons_iff.mpr (.inr hc))
      unfold pieces
      dsimp only
      split
      · next tag after htag =>
        refine absurd ?_ h
        obtain ⟨b, inside, hb, hi, -, hfront⟩ := tag?_eq_some htag
        refine ⟨b, inside, hb, hi, ?_⟩
        have found : '[' :: b :: inside ++ [']'] <:+:
            (c :: cs).drop ((c :: cs).takeWhile (· = '\\')).length :=
          ⟨[], after, by rw [hfront]; simp⟩
        exact found.trans (List.drop_suffix _ _).isInfix
      · next hnone =>
        rw [ih back]
        simp

/-! ## The result -/

/-- The text that is shown of pieces is part of their text, or it has lost colons. -/
theorem join?_cases {styles : Styles} {opened : List OpenTag} {ps : List Piece} {shown : List Char}
    (h : join? styles known opened ps = some shown) :
    shown.Sublist (textOf ps) ∨ shown.count ':' < (textOf ps).count ':' := by
  induction ps generalizing opened shown with
  | nil =>
    cases h
    exact .inl (List.Sublist.refl _)
  | cons p ps ih =>
    cases p with
    | tag tag =>
      unfold join? at h
      split at h
      · exact ih h
      · cases h
    | text cs =>
      unfold join? at h
      obtain ⟨rest, hrest, rfl⟩ := Option.map_eq_some_iff.mp h
      have text : textOf (.text cs :: ps) = cs ++ textOf ps := rfl
      have loss := unescape_sublist cs
      have colons := loss.count_le ':'
      have kept := count_illustrate_le known (unescape cs)
      rw [text]
      simp only [List.count_append]
      rcases illustrate_cases known none (unescape cs) with ⟨he, -⟩ | ⟨hlt, -⟩
      · rcases ih hrest with hpart | hfewer
        · rw [he]
          exact .inl (loss.append hpart)
        · exact .inr (by omega)
      · refine .inr ?_
        simp only [whole] at hlt
        rcases ih hrest with hpart | hfewer
        · have := hpart.count_le ':'
          omega
        · omega

/-- A text is shown as it is: no tag stands in it and no bracket after a backslash, no picture is
known for what is read in it, and it has none of the controls that are left out. -/
structure Verbatim (cs : List Char) : Prop where
  untagged : ¬ Tagged cs
  unescaped : ¬ ['\\', '['] <:+: cs
  unillustrated : ∀ name ∈ codes none cs, known.picture? name = none
  kept : ∀ c ∈ cs, isLeftOut c = false

variable {known}

/-- Leaving out controls takes no colon away. -/
theorem count_kept (cs : List Char) :
    (cs.filter fun c => !isLeftOut c).count ':' = cs.count ':' :=
  List.count_filter (by decide)

theorem unescape_of_notMem {cs : List Char} (h : '[' ∉ cs) : unescape cs = cs :=
  unescape_eq_self_iff.mpr fun hi => h (hi.subset (by simp))

/-- A text is shown as it is if taking it as one piece changes nothing. -/
theorem verbatim_iff {cs : List Char} (htag : ¬ Tagged cs) :
    (illustrate known none (unescape cs)).filter (fun c => !isLeftOut c) = cs ↔
      Verbatim known cs := by
  constructor
  · intro h
    have colons := congrArg (List.count ':') h
    rw [count_kept] at colons
    have fewer := (unescape_sublist cs).count_le ':'
    rcases illustrate_cases known none (unescape cs) with ⟨he, hnames⟩ | ⟨hlt, -⟩
    · simp only [whole] at he
      rw [he] at h
      have part : cs.Sublist (unescape cs) := by
        conv => lhs; rw [← h]
        exact List.filter_sublist
      have same : unescape cs = cs := (unescape_sublist cs).antisymm part
      rw [same] at h hnames
      refine ⟨htag, unescape_eq_self_iff.mp same, hnames, fun c hc => ?_⟩
      simpa using List.filter_eq_self.mp h c hc
    · simp only [whole] at hlt
      omega
  · intro h
    rw [unescape_eq_self_iff.mpr h.unescaped]
    have same : illustrate known none cs = cs := by
      rcases illustrate_cases known none cs with ⟨he, -⟩ | ⟨-, name, hname, hpicture⟩
      · exact he
      · exact absurd (h.unillustrated name hname) hpicture
    rw [same]
    exact List.filter_eq_self.mpr fun c hc => by simp [h.kept c hc]

/-- A text with brackets is shown as it is only if no tag stands in it. -/
theorem not_tagged_of_join? {styles : Styles} {cs shown : List Char}
    (h : join? styles known [] (pieces cs.length [] cs) = some shown)
    (hcs : shown.filter (fun c => !isLeftOut c) = cs) : ¬ Tagged cs := by
  intro htag
  obtain ⟨part, shorter⟩ := textOf_pieces cs.length [] cs
  have fewer := shorter (Nat.le_refl _) htag
  have colons := congrArg (List.count ':') hcs
  rw [count_kept] at colons
  simp only [List.reverse_nil, List.nil_append, List.length_nil, Nat.zero_add] at part fewer
  rcases join?_cases known h with hpart | hlt
  · have kept : (shown.filter fun c => !isLeftOut c).length ≤ shown.length :=
      List.length_filter_le _ _
    have length := hpart.length_le
    rw [hcs] at kept
    omega
  · have := part.count_le ':'
    omega

/-- **Which texts are shown as they are.** It does not matter what the console makes of names. -/
theorem render?_eq_self_iff {styles : Styles} {s : String} :
    render? styles known s = some s ↔ Verbatim known s.toList := by
  have text : ∀ {cs : List Char}, some (String.ofList cs) = some s ↔ cs = s.toList := by
    intro cs
    rw [Option.some_inj, ← String.toList_inj, String.toList_ofList]
  unfold render?
  split
  · next hbracket =>
    have nonempty : s.toList.isEmpty = false := by
      cases hs : s.toList with
      | nil => simp [hs] at hbracket
      | cons c cs => rfl
    have whole : ¬ Tagged s.toList →
        join? styles known [] (pieces s.toList.length [] s.toList) =
        some (illustrate known none (unescape s.toList)) := by
      intro htag
      rw [pieces_of_not_tagged htag]
      simp [plain, nonempty, join?]
    constructor
    · intro h
      obtain ⟨shown, hjoin, hshown⟩ := Option.map_eq_some_iff.mp h
      have hcs := text.mp (congrArg some hshown)
      have htag := not_tagged_of_join? hjoin hcs
      rw [whole htag] at hjoin
      cases hjoin
      exact (verbatim_iff htag).mp hcs
    · intro h
      rw [whole h.untagged, Option.map_some]
      exact text.mpr ((verbatim_iff h.untagged).mpr h)
  · next hbracket =>
    have bracketless : '[' ∉ s.toList := by simpa using hbracket
    have untagged : ¬ Tagged s.toList := fun h => bracketless h.mem
    have same : _ ↔ Verbatim known s.toList := verbatim_iff untagged
    rw [unescape_of_notMem bracketless] at same
    exact text.trans same

/-- Tags are taken out; a handler has its parameters read, and a colour its numbers. -/
example : ["[b]x[/bold]", "[@click=go()]x[/]", "[@click=(]x[/]", "[rgb(,,)]x"].map
    (render? .basic .none) = [some "x", some "x", none, none] := by decide +kernel

/-- Whether a character is shown as it is wherever it stands. -/
def isOrdinary (c : Char) : Bool := c != '[' && c != ':' && !isLeftOut c

/-- A text without brackets and colons, and without controls, is shown as it is. -/
theorem Verbatim.of_ordinary {cs : List Char} (h : cs.all isOrdinary = true) :
    Verbatim known cs := by
  have ordinary : ∀ c ∈ cs, c ≠ '[' ∧ c ≠ ':' ∧ isLeftOut c = false := fun c hc => by
    simpa [isOrdinary, and_assoc] using List.all_eq_true.mp h c hc
  have bracketless : '[' ∉ cs := fun hc => (ordinary _ hc).1 rfl
  have nameless : codes none cs = [] := by
    clear h bracketless
    induction cs with
    | nil => rfl
    | cons c cs ih =>
      rw [codes, if_neg (ordinary c List.mem_cons_self).2.1]
      exact ih fun x hx => ordinary x (List.mem_cons_of_mem c hx)
  refine ⟨fun htag => bracketless htag.mem, fun hi => bracketless (hi.subset (by simp)), ?_,
    fun c hc => (ordinary c hc).2.2⟩
  rw [nameless]
  nofun

end TreeFeatures.Markup
