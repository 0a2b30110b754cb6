import TreeFeatures.Proofs.Settings.Precedence

/-!
# Overrides without a body

An override may be left without a body, and then its value is null; or it may be given an empty table.
Either is an override without flags, and alone in the settings they are read alike. But null replaces
what the environment says about the language, and an empty table is merged with it.

* `embodied`: explicit entries with empty tables in the place of some null overrides.
* `Outcome`: what becomes of explicit entries that are handed over, or that stand in a settings file.
* `readOverrides_embodyAll`: both spellings are read alike where the environment is silent about the
  languages. `complaints_of_embodyAll`: there is no complaint about null that there is not about the
  empty table.
* `embodied_alike_iff`: the result. `embodied_differs`: the shortest settings that the two spellings
  tell apart.
-/

namespace TreeFeatures.Settings

open Value

variable {env : Environment} {entries : List (Value × Value)} {chosen : Value → Bool}
  {language : String}

/-! ## Two spellings -/

/-- An empty table in the place of null, if asked for. -/
def filled (c : Bool) : Value → Value
  | .null => if c then .table [] else .null
  | v => v

/-- The entry of an override, with an empty table in the place of null if its key is chosen. -/
def embody (chosen : Value → Bool) (e : Value × Value) : Value × Value :=
  (e.1, filled (chosen e.1) e.2)

/-- The overrides of a table, with empty tables for chosen ones. -/
def embodyAll (chosen : Value → Bool) : Value → Value
  | .table es => .table (es.map (embody chosen))
  | v => v

/-- Explicit entries, with empty tables in the place of null for chosen overrides. -/
def embodied (chosen : Value → Bool) (entries : List (Value × Value)) : List (Value × Value) :=
  entries.map fun e =>
    (e.1, if spells "parser_settings" e.1 then embodyAll chosen e.2 else e.2)

theorem stated?_embodied (chosen : Value → Bool) (entries : List (Value × Value)) :
    stated? (embodied chosen entries) "parser_settings" =
      (stated? entries "parser_settings").map (embodyAll chosen) := by
  unfold stated? embodied
  rw [← List.map_reverse, List.find?_map, Option.map_map, Option.map_map]
  refine Option.map_congr fun e he => ?_
  have spelt : spells "parser_settings" e.1 = true := by simpa using List.find?_some he
  exact if_pos spelt

theorem stated?_embodied_of_ne {field : String} (h : field ≠ "parser_settings")
    (chosen : Value → Bool) (entries : List (Value × Value)) :
    stated? (embodied chosen entries) field = stated? entries field := by
  unfold stated? embodied
  rw [← List.map_reverse, List.find?_map, Option.map_map]
  refine Option.map_congr fun e he => ?_
  have spelt : spells field e.1 = true := by simpa using List.find?_some he
  have other : ¬ spells "parser_settings" e.1 = true := by
    intro hs
    cases hk : e.1 with
    | text s =>
      rw [hk] at spelt hs
      exact h ((beq_iff_eq.mp spelt).symm.trans (beq_iff_eq.mp hs))
    | _ =>
      rw [hk] at hs
      cases hs
  exact if_neg other

theorem namesAreText_embodied (chosen : Value → Bool) (entries : List (Value × Value)) :
    namesAreText (embodied chosen entries) = namesAreText entries := by
  unfold namesAreText embodied
  rw [List.all_map]
  rfl

/-- Both spellings can be gathered, or neither. -/
theorem gather_embodied : (∃ merged, gather env (embodied chosen entries) = .ok merged) ↔
    ∃ merged, gather env entries = .ok merged := by
  cases names : namesAreText entries with
  | false =>
    rw [gather_of_not_names names, gather_of_not_names ((namesAreText_embodied _ _).trans names)]
  | true =>
    rw [gather_of_names names, gather_of_names ((namesAreText_embodied _ _).trans names)]
    cases fromVariables env fieldNames with
    | ok base => exact ⟨fun _ => ⟨_, rfl⟩, fun _ => ⟨_, rfl⟩⟩
    | error e => exact ⟨nofun, nofun⟩

/-! ## Reading both -/

/-- Alone an override is read alike in both spellings. -/
theorem readOverride_filled (c : Bool) (v : Value) : readOverride (filled c v) = readOverride v := by
  cases v with
  | null => cases c <;> rfl
  | _ => rfl

/-- Laid over an override null silences it, and an empty table leaves it as it is. -/
theorem readOverride_overlay_filled (b v : Value) (c : Bool) :
    readOverride (overlay b (filled c v)) = readOverride (overlay b v) ∨
      (v = .null ∧ c = true) ∧ readOverride (overlay b v) = ⟨Flags.off, []⟩ ∧
        readOverride (overlay b (filled c v)) = Flags.readTable (inner (some b)) := by
  cases v with
  | null =>
    cases c with
    | false => exact .inl rfl
    | true =>
      have silenced : overlay b .null = .null := overlay_of_not_table rfl
      refine .inr ⟨⟨rfl, rfl⟩, by rw [silenced]; rfl, ?_⟩
      cases b with
      | table bs =>
        have kept : overlay (.table bs) (.table []) = .table bs := by rw [overlay, overlayEntries]
        exact congrArg readOverride kept
      | _ => rfl
  | _ => exact .inl rfl

theorem member?_embody (es : List (Value × Value)) :
    member? (es.map (embody chosen)) language =
      (member? es language).map (filled (chosen (.text language))) := by
  induction es with
  | nil => rfl
  | cons e rest ih =>
    obtain ⟨k, v⟩ := e
    by_cases hk : k = .text language
    · subst hk
      rw [member?_cons_self]
      exact member?_cons_self
    · rw [member?_cons_of_ne hk, ← ih]
      exact member?_cons_of_ne hk

/-- How an entry of the environment is read with either spelling over it: alike, or it is one of the
chosen overrides. -/
theorem readOverride_lay_embody (es : List (Value × Value)) (n : String) (b : Value) :
    readOverride (lay (es.map (embody chosen)) (.text n, b)).2 =
        readOverride (lay es (.text n, b)).2 ∨
      (member? es n = some .null ∧ chosen (.text n) = true) ∧
        readOverride (lay es (.text n, b)).2 = ⟨Flags.off, []⟩ ∧
        readOverride (lay (es.map (embody chosen)) (.text n, b)).2 =
          Flags.readTable (inner (some b)) := by
  simp only [lay, lookup?_text, member?_embody]
  cases hv : member? es n with
  | none => exact .inl rfl
  | some v =>
    rcases readOverride_overlay_filled b v (chosen (.text n)) with h | ⟨⟨rfl, hc⟩, hnull, htable⟩
    · exact .inl h
    · exact .inr ⟨⟨rfl, hc⟩, hnull, htable⟩

section Tables

variable {bs es : List (Value × Value)} {acc : Reading (Assoc String Flags)}

theorem keysDiffer_embody (h : KeysDiffer es) : KeysDiffer (es.map (embody chosen)) :=
  List.pairwise_map.mpr h

/-- The entries of a table with overrides over it whose chosen ones have empty tables. -/
theorem overlayEntries_embody (hb : KeysDiffer bs) (texts : ∀ e ∈ bs, IsText e.1)
    (he : KeysDiffer es) : overlayEntries bs (es.map (embody chosen)) =
      bs.map (lay (es.map (embody chosen))) ++ (es.filter (fresh bs)).map (embody chosen) := by
  rw [overlayEntries_eq hb texts (keysDiffer_embody he), List.filter_map]
  rfl

/-- What is accepted with empty tables is accepted with null. -/
theorem complaints_of_embody (hb : KeysDiffer bs) (texts : ∀ e ∈ bs, IsText e.1)
    (he : KeysDiffer es)
    (h : (readEntries (overlayEntries bs (es.map (embody chosen))) acc).complaints = []) :
    (readEntries (overlayEntries bs es) acc).complaints = [] := by
  rw [overlayEntries_embody hb texts he] at h
  rw [overlayEntries_eq hb texts he]
  obtain ⟨hacc, accepted⟩ := readEntries_complaints.mp h
  obtain ⟨old, new⟩ := List.forall_mem_append.mp accepted
  refine readEntries_complaints.mpr ⟨hacc, List.forall_mem_append.mpr ⟨?_, fun e hmem => ?_⟩⟩
  · refine List.forall_mem_map.mpr fun ⟨k, b⟩ hmem => ?_
    obtain ⟨n, rfl⟩ : IsText k := texts _ hmem
    refine ⟨rfl, ?_⟩
    rcases readOverride_lay_embody es n b with hread | ⟨-, hread, -⟩
    · exact hread ▸ (List.forall_mem_map.mp old _ hmem).2
    · rw [hread]
  · have read := List.forall_mem_map.mp new e hmem
    exact ⟨read.1, readOverride_filled (chosen e.1) e.2 ▸ read.2⟩

/-- Where the table is silent about the chosen overrides both spellings are read alike. -/
theorem readEntries_embody (hb : KeysDiffer bs) (texts : ∀ e ∈ bs, IsText e.1) (he : KeysDiffer es)
    (silent : ∀ n b, (.text n, b) ∈ bs → member? es n = some .null → chosen (.text n) = true →
      Flags.readTable (inner (some b)) = ⟨Flags.off, []⟩) :
    readEntries (overlayEntries bs (es.map (embody chosen))) acc =
      readEntries (overlayEntries bs es) acc := by
  rw [overlayEntries_embody hb texts he, overlayEntries_eq hb texts he]
  refine readEntries_congr ?_
  rw [List.map_append, List.map_append, List.map_map, List.map_map, List.map_map]
  refine congrArg₂ _ (List.map_congr_left fun ⟨k, b⟩ hmem => ?_) (List.map_congr_left fun e _ => ?_)
  · obtain ⟨n, rfl⟩ : IsText k := texts _ hmem
    refine congrArg (Prod.mk _) ?_
    rcases readOverride_lay_embody es n b with hread | ⟨⟨hnull, hc⟩, hread, hread'⟩
    · exact hread
    · exact (hread'.trans (silent n b hmem hnull hc)).trans hread.symm
  · exact congrArg (Prod.mk _) (readOverride_filled _ _)

end Tables

section Sources

variable {P : Value → Prop} {b? v? : Option Value}

/-- What is accepted with empty tables is accepted with null. -/
theorem complaints_of_embodyAll (hb : ∀ b, b? = some b → Keyed IsText b)
    (hv : ∀ v, v? = some v → Keyed P v)
    (h : (readOverrides (laid b? (v?.map (embodyAll chosen)))).complaints = []) :
    (readOverrides (laid b? v?)).complaints = [] := by
  cases v? with
  | none => exact h
  | some v =>
    cases v with
    | table es =>
      have differ := (hv _ rfl).keysDiffer
      obtain ⟨hbase, texts⟩ := inner_keyed hb
      rw [Option.map_some, embodyAll, laid_table (keysDiffer_embody differ)] at h
      rw [laid_table differ]
      exact under_complaints.mpr (complaints_of_embody hbase texts differ (under_complaints.mp h))
    | _ => exact h

/-- Where one source is silent about the chosen overrides of the other one, both spellings of those are
read alike. -/
theorem readOverrides_embodyAll (hb : ∀ b, b? = some b → Keyed IsText b)
    (hv : ∀ v, v? = some v → Keyed P v)
    (silent : ∀ n, v?.bind (·.field? n) = some .null → chosen (.text n) = true →
      Flags.readTable (inner (b?.bind (·.field? n))) = ⟨Flags.off, []⟩) :
    readOverrides (laid b? (v?.map (embodyAll chosen))) = readOverrides (laid b? v?) := by
  cases v? with
  | none => rfl
  | some v =>
    cases v with
    | table es =>
      have differ := (hv _ rfl).keysDiffer
      obtain ⟨hbase, texts⟩ := inner_keyed hb
      rw [Option.map_some, embodyAll, laid_table (keysDiffer_embody differ), laid_table differ]
      refine congrArg (Reading.under _) (readEntries_embody hbase texts differ ?_)
      intro n b hmem hn hc
      have own : b?.bind (·.field? n) = some b :=
        (member?_inner b?).symm.trans (hbase.member?_of_mem hmem)
      exact own ▸ silent n hn hc
    | _ => rfl

end Sources

/-! ## Settings from either spelling -/

/-- What becomes of explicit entries that are handed over, or that stand in a settings file. -/
inductive Outcome (env : Environment) (entries : List (Value × Value)) :
    Except Fault Settings → Prop
  | coerced {r : Except Fault Settings} : Keyed (fun _ => True) (.table entries) →
      coerce env (.table entries) = r.map some → Outcome env entries r
  | loaded {m : Machine} {path : Option String} {p : String} {bytes : List UInt8} :
      m.environment = env → Opens m path p bytes → Document bytes (.table entries) →
      Outcome env entries (load m path).result

theorem Outcome.keyed {r : Except Fault Settings} (h : Outcome env entries r) :
    Keyed (fun _ => True) (.table entries) := by
  cases h with
  | coerced hkeyed _ => exact hkeyed
  | loaded _ _ hdocument =>
    obtain ⟨text, -, hread⟩ := hdocument
    exact Yaml.keyed_read hread

/-- Entries are accepted exactly if settings are made of them. -/
theorem Outcome.eq_ok {r : Except Fault Settings} (h : Outcome env entries r) {s : Settings} :
    r = .ok s ↔ build env entries = .ok s := by
  cases h with
  | coerced _ hcoerce =>
    rw [← coerce_eq_ok, hcoerce]
    cases r with
    | ok _ => simp [Except.map]
    | error _ => simp [Except.map]
  | loaded henv hopens hdocument =>
    rw [load_of_opens hopens, fromFile_of_document hdocument, henv]
    exact buildFrom_eq_ok

/-- An override of explicit entries is null, and chosen to be an empty table instead. -/
def Replaced (chosen : Value → Bool) (entries : List (Value × Value)) (language : String) : Prop :=
  (Source.explicit entries).override language = some .null ∧ chosen (.text language) = true

/-- The environment has nothing to say about a language: there is no override with flags, or all of
them are off. -/
def Silent (env : Environment) (language : String) : Prop :=
  Flags.readTable (inner ((Source.environment env).override language)) = ⟨Flags.off, []⟩

/-- What is read of both spellings differs in the overrides at most. -/
theorem read_embodied {merged merged' : List (Value × Value)} (h : gather env entries = .ok merged)
    (h' : gather env (embodied chosen entries) = .ok merged')
    (keyed : Keyed (fun _ => True) (.table entries)) :
    ((read merged').complaints = [] → (read merged).complaints = []) ∧
      ((∀ l, Replaced chosen entries l → Silent env l) → read merged' = read merged) := by
  have same : ∀ field ∈ fieldNames, field ≠ "parser_settings" →
      member? merged' field = member? merged field := by
    intro field hf hother
    rw [member?_gather h' hf, member?_gather h hf, stated?_embodied_of_ne hother]
  have parsers : member? merged' "parsers" = member? merged "parsers" :=
    same _ (by decide) (by decide)
  have switches : Flags.readTable merged' = Flags.readTable merged :=
    readTable_congr fun flag => same _ (by cases flag <;> decide) (by cases flag <;> decide)
  have known : "parser_settings" ∈ fieldNames := by decide
  have own := member?_gather h known
  have own' := member?_gather h' known
  rw [stated?_embodied] at own'
  constructor
  · intro hc
    obtain ⟨hparsers, hswitches, hoverrides⟩ := read_complaints.mp hc
    rw [own'] at hoverrides
    refine read_complaints.mpr ⟨parsers ▸ hparsers, switches ▸ hswitches, ?_⟩
    rw [own]
    exact complaints_of_embodyAll (fun _ => keyed_supplied?) (fun _ => keyed_stated? keyed) hoverrides
  · intro silent
    have overrides : readOverrides (member? merged' "parser_settings") =
        readOverrides (member? merged "parser_settings") := by
      rw [own, own']
      exact readOverrides_embodyAll (fun _ => keyed_supplied?) (fun _ => keyed_stated? keyed)
        fun n hn hc => silent n ⟨hn, hc⟩
    simp only [Settings.read, parsers, switches, overrides]

/-- The flags of a language with an override, in settings that are made of entries. -/
theorem resolve_of_build {s : Settings} {v : Value} (hbuild : build env entries = .ok s)
    (keyed : Keyed (fun _ => True) (.table entries)) (sole : Sole entries language)
    (hv : laid ((Source.environment env).override language)
      ((Source.explicit entries).override language) = some v) :
    s.resolve (some language) = (readOverride v).value ∧ (readOverride v).complaints = [] := by
  obtain ⟨hget, hc⟩ := override_of_build hbuild keyed sole
  have resolved : s.resolve (some language) = (s.overrides.get? language).getD s.flags := rfl
  rw [resolved, hget, hv]
  exact ⟨rfl, hc v hv⟩

theorem Sole.embodied (h : Sole entries language) (chosen : Value → Bool) :
    Sole (embodied chosen entries) language := by
  intro e he hl
  rw [stated?_embodied] at he
  obtain ⟨es', hes', hmem⟩ := mem_inner.mp he
  obtain ⟨v, hv, hfilled⟩ := Option.map_eq_some_iff.mp hes'
  cases v with
  | table es =>
    cases hfilled
    obtain ⟨f, hf, rfl⟩ := List.mem_map.mp hmem
    exact h f (mem_inner.mpr ⟨es, hv, hf⟩) hl
  | _ => cases hfilled

theorem override_embodied (chosen : Value → Bool) (entries : List (Value × Value)) :
    (Source.explicit (embodied chosen entries)).override language =
      ((Source.explicit entries).override language).map (filled (chosen (.text language))) := by
  simp only [Source.explicit, stated?_embodied]
  cases stated? entries "parser_settings" with
  | none => rfl
  | some v =>
    cases v with
    | table es => exact member?_embody es
    | _ => rfl

/-- Entries that are accepted with empty tables are accepted with null. -/
theorem build_of_embodied {s' : Settings} (keyed : Keyed (fun _ => True) (.table entries))
    (h' : build env (embodied chosen entries) = .ok s') : ∃ s, build env entries = .ok s := by
  obtain ⟨merged', hmerged', hc, -⟩ := build_eq_ok.mp h'
  obtain ⟨merged, hmerged⟩ := gather_embodied.mp ⟨merged', hmerged'⟩
  have accepted := (read_embodied hmerged hmerged' keyed).1 hc
  exact ⟨_, build_eq_ok.mpr ⟨merged, hmerged, accepted, rfl⟩⟩

/-- Where the environment is silent both spellings give the same settings. -/
theorem build_embodied_of_silent {s : Settings} (keyed : Keyed (fun _ => True) (.table entries))
    (silent : ∀ l, Replaced chosen entries l → Silent env l) :
    build env entries = .ok s ↔ build env (embodied chosen entries) = .ok s := by
  rw [build_eq_ok, build_eq_ok]
  constructor
  · rintro ⟨merged, hmerged, hc, hs⟩
    obtain ⟨merged', hmerged'⟩ := gather_embodied.mpr ⟨merged, hmerged⟩
    have same := (read_embodied hmerged hmerged' keyed).2 silent
    exact ⟨merged', hmerged', same ▸ hc, same ▸ hs⟩
  · rintro ⟨merged', hmerged', hc, hs⟩
    obtain ⟨merged, hmerged⟩ := gather_embodied.mp ⟨merged', hmerged'⟩
    have same := (read_embodied hmerged hmerged' keyed).2 silent
    exact ⟨merged, hmerged, same ▸ hc, same ▸ hs⟩

/-- Null silences a language, whatever the environment says. -/
theorem resolve_null {s : Settings} (hbuild : build env entries = .ok s)
    (keyed : Keyed (fun _ => True) (.table entries)) (sole : Sole entries language)
    (hnull : (Source.explicit entries).override language = some .null) :
    s.resolve (some language) = Flags.off := by
  have own : laid ((Source.environment env).override language)
      ((Source.explicit entries).override language) = some .null := by
    rw [hnull]
    exact laid_of_not_table rfl _
  exact (resolve_of_build hbuild keyed sole own).1

/-- An empty table leaves a language the override of the environment. -/
theorem resolve_empty {s : Settings} (hbuild : build env entries = .ok s)
    (keyed : Keyed (fun _ => True) (.table entries)) (sole : Sole entries language)
    (hempty : (Source.explicit entries).override language = some (.table [])) :
    let own := Flags.readTable (inner ((Source.environment env).override language))
    s.resolve (some language) = own.value ∧ own.complaints = [] := by
  have own := laid_table .nil ((Source.environment env).override language)
  rw [← hempty, overlayEntries] at own
  exact resolve_of_build hbuild keyed sole own

/-- **The two spellings of an override without a body**, null and an empty table, in explicit entries of
any kind, handed over or loaded.

* What is accepted with empty tables is accepted with null.
* Where the environment is silent about the languages, the settings are the same.
* With null the language has no flags, whatever else there is; with an empty table it has those of the
  environment. So unless the environment is silent, the settings are not the same. (A key in bytes may
  spell the language as well, and then the later key counts.) -/
theorem embodied_alike_iff {r r' : Except Fault Settings} (h : Outcome env entries r)
    (h' : Outcome env (embodied chosen entries) r') :
    (∀ s', r' = .ok s' → ∃ s, r = .ok s) ∧
    ((∀ l, Replaced chosen entries l → Silent env l) → ∀ s, r = .ok s ↔ r' = .ok s) ∧
    (∀ l, (Source.explicit entries).override l = some .null → Sole entries l →
      ∀ s, r = .ok s → s.resolve (some l) = Flags.off) ∧
    ∀ l, Replaced chosen entries l → Sole entries l → ∀ s', r' = .ok s' →
      s'.resolve (some l) = (Flags.readTable (inner ((Source.environment env).override l))).value ∧
        (r = .ok s' → Silent env l) := by
  refine ⟨fun s' hs' => ?_, fun silent s => ?_, fun l hl sole s hs => ?_, fun l hl sole s' hs' => ?_⟩
  · obtain ⟨s, hs⟩ := build_of_embodied h.keyed (h'.eq_ok.mp hs')
    exact ⟨s, h.eq_ok.mpr hs⟩
  · rw [h.eq_ok, h'.eq_ok]
    exact build_embodied_of_silent h.keyed silent
  · exact resolve_null (h.eq_ok.mp hs) h.keyed sole hl
  · have empty : (Source.explicit (embodied chosen entries)).override l = some (.table []) := by
      rw [override_embodied, hl.1, Option.map_some, hl.2]
      rfl
    obtain ⟨shown, fine⟩ := resolve_empty (h'.eq_ok.mp hs') h'.keyed (sole.embodied chosen) empty
    refine ⟨shown, fun hs => ?_⟩
    have off := resolve_null (h.eq_ok.mp hs) h.keyed sole hl.1
    unfold Silent
    rw [← off, shown, ← fine]

/-- Highlights for zimbu, as JSON. -/
def zimbuText : String := "\x7b\"zimbu\": \x7b\"highlights\": true\x7d\x7d"

/-- An environment in which zimbu has highlights. -/
def zimbuShown : Environment := [("TS_ENABLE_PARSER_SETTINGS", zimbuText)]

/-- Explicit entries in which zimbu has an override with this value and nothing else. -/
def zimbuAs (v : Value) : List (Value × Value) :=
  [(.text "parser_settings", .table [(.text "zimbu", v)])]

/-- Settings in which zimbu has an override with these flags and nothing else. -/
def zimbuFlags (flags : Flags) : Settings where
  overrides := [("zimbu", flags)]

theorem coerce_zimbu_null :
    coerce zimbuShown (.table (zimbuAs .null)) = .ok (some (zimbuFlags Flags.off)) :=
  coerce_eq_ok.mpr (toOption_eq_some.mp (by decide +kernel))

theorem coerce_zimbu_empty : coerce zimbuShown (.table (zimbuAs (.table []))) =
    .ok (some (zimbuFlags { highlights := true })) :=
  coerce_eq_ok.mpr (toOption_eq_some.mp (by decide +kernel))

theorem keyed_zimbuAs {v : Value} (h : Keyed (fun _ => True) v) :
    Keyed (fun _ => True) (.table (zimbuAs v)) := by
  refine .table (List.pairwise_singleton _ _) (fun _ _ => trivial) (List.forall_mem_singleton.mpr ?_)
  exact .table (List.pairwise_singleton _ _) (fun _ _ => trivial) (List.forall_mem_singleton.mpr h)

/-- With highlights in the environment, null silences zimbu and an empty table does not. -/
theorem embodied_alike_iff_zimbu :
    ∃ s s', coerce zimbuShown (.table (zimbuAs .null)) = .ok (some s) ∧
      coerce zimbuShown (.table (zimbuAs (.table []))) = .ok (some s') ∧
      s.resolve (some "zimbu") = Flags.off ∧ s'.resolve (some "zimbu") =
        (Flags.readTable (inner ((Source.environment zimbuShown).override "zimbu"))).value := by
  have null : Outcome zimbuShown (zimbuAs .null) (.ok (zimbuFlags Flags.off)) :=
    .coerced (keyed_zimbuAs (.other rfl)) coerce_zimbu_null
  have empty : Outcome zimbuShown (embodied (fun _ => true) (zimbuAs .null))
      (.ok (zimbuFlags { highlights := true })) :=
    .coerced (keyed_zimbuAs .nil) coerce_zimbu_empty
  have sole : Sole (zimbuAs .null) "zimbu" := List.forall_mem_singleton.mpr fun _ => rfl
  obtain ⟨-, -, silenced, shown⟩ := embodied_alike_iff null empty
  exact ⟨_, _, coerce_zimbu_null, coerce_zimbu_empty, silenced "zimbu" rfl sole _ rfl,
    (shown "zimbu" ⟨rfl, rfl⟩ sole _ rfl).1⟩

/-- The two spellings do not give the same settings: with an empty table zimbu is highlighted. -/
theorem embodied_differs :
    embodied (fun _ => true) (zimbuAs .null) = zimbuAs (.table []) ∧
    ∃ s s', coerce zimbuShown (.table (zimbuAs .null)) = .ok (some s) ∧
      coerce zimbuShown (.table (zimbuAs (.table []))) = .ok (some s') ∧ s ≠ s' ∧
      s.resolve (some "zimbu") = Flags.off ∧ (s'.resolve (some "zimbu")).highlights = true :=
  ⟨rfl, _, _, coerce_zimbu_null, coerce_zimbu_empty, by decide, by decide, by decide⟩

end TreeFeatures.Settings
