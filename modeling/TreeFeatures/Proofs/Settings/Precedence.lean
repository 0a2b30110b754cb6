import TreeFeatures.Proofs.Settings.Gathered

/-!
# Which value decides about a switch

Explicit settings are laid over those of the environment before anything is checked, and the override
of a language replaces the global switches. Which of the four places decides about a switch of a
language in the end is a rule on what the two sources say, without merging and without order:

* `Source`: what a source says, by switch and by language. `Source.explicit` and `Source.environment`
  are the two sources of settings.
* `deciding`: the rule. If one of the sources has an override for the language, the explicit override
  decides where it mentions the switch, else that of the environment, unless the explicit override is
  null; without an override the global values decide, the explicit one first.
* `get_resolve`: the result. The switch of a language is what the deciding value is read as, and off if
  there is none; so other overrides do not matter to a language, and the global values do not matter
  to one with an override.
-/

namespace TreeFeatures.Settings

open Value

variable {env : Environment} {entries : List (Value × Value)} {s : Settings}

/-! ## What the sources say -/

/-- What a source of settings says. -/
structure Source where
  /-- The global value of a switch. -/
  flag : Flag → Option Value
  /-- The override of a language. -/
  override : String → Option Value

/-- What explicit entries say. -/
def Source.explicit (entries : List (Value × Value)) : Source where
  flag flag := stated? entries flag.name
  override language := (stated? entries "parser_settings").bind (·.field? language)

/-- What the variables of an environment say. -/
def Source.environment (env : Environment) : Source where
  flag flag := supplied? env flag.name
  override language := (supplied? env "parser_settings").bind (·.field? language)

/-- The value that decides about a switch of a language. -/
def deciding (mine theirs : Source) (language : String) (flag : Flag) : Option Value :=
  match mine.override language, theirs.override language with
  | none, none => (mine.flag flag).or (theirs.flag flag)
  | none, some v => v.field? flag.name
  | some .null, _ => none
  | some v, theirs? => (v.field? flag.name).or (theirs?.bind (·.field? flag.name))

/-- The rule depends on what the sources say about the language, and without an override on what they
say about the switch. -/
theorem deciding_congr {mine mine' theirs theirs' : Source} {language : String} {flag : Flag}
    (hmine : mine.override language = mine'.override language)
    (htheirs : theirs.override language = theirs'.override language)
    (hcase : mine.override language ≠ none ∨ theirs.override language ≠ none ∨
      mine.flag flag = mine'.flag flag ∧ theirs.flag flag = theirs'.flag flag) :
    deciding mine theirs language flag = deciding mine' theirs' language flag := by
  unfold deciding
  rw [← hmine, ← htheirs]
  split
  · next hm ht =>
    rcases hcase with h | h | ⟨hm', ht'⟩
    · exact absurd hm h
    · exact absurd ht h
    · rw [hm', ht']
  · rfl
  · rfl
  · rfl

/-- The position of a switch with this value, if any; it is off without one. -/
def switched : Option Value → Reading Bool
  | some v => Flag.readValue v
  | none => ⟨false, []⟩

/-! ## Reading switches -/

theorem flags_ext {a b : Flags} (h : ∀ flag, a.get flag = b.get flag) : a = b := by
  have install := h .autoInstall
  have highlights := h .highlights
  have folds := h .folds
  have indents := h .indents
  cases a
  cases b
  simp_all [Flags.get]

theorem read_switch_value (es : List (Value × Value)) (flag : Flag) :
    (flag.read es).value = (switched (member? es flag.name)).value := by
  unfold Flag.read
  cases member? es flag.name <;> rfl

theorem read_switch_complaints (es : List (Value × Value)) (flag : Flag) :
    (flag.read es).complaints = [] ↔ (switched (member? es flag.name)).complaints = [] := by
  unfold Flag.read
  cases member? es flag.name with
  | none => rfl
  | some v => exact under_complaints

/-- A switch that is laid over another is read as it is; the other only counts without it. -/
theorem switched_laid (theirs? mine? : Option Value) :
    switched (laid theirs? mine?) = switched (mine?.or theirs?) := by
  cases theirs? with
  | none => cases mine? <;> rfl
  | some b =>
    cases mine? with
    | none => rfl
    | some v => exact readValue_overlay

/-- Without a complaint about a table each of its switches is read as what the table says. -/
theorem switched_of_readTable {es : List (Value × Value)} (h : (Flags.readTable es).complaints = [])
    (flag : Flag) :
    switched (member? es flag.name) = ⟨(Flags.readTable es).value.get flag, []⟩ := by
  have all : ∀ f ∈ Flag.all, (Flag.read es f).complaints = [] := List.flatMap_eq_nil_iff.mp h
  have known : flag ∈ Flag.all := by cases flag <;> decide
  have none := (read_switch_complaints es flag).mp (all flag known)
  have value : (Flags.readTable es).value.get flag = (switched (member? es flag.name)).value := by
    rw [← read_switch_value]
    exact Flags.get_ofFun _ _
  rw [value, ← none]

/-- The same of an override; one that is null says nothing. -/
theorem switched_of_readOverride {v : Value} (h : (readOverride v).complaints = []) (flag : Flag) :
    switched (v.field? flag.name) = ⟨(readOverride v).value.get flag, []⟩ := by
  cases v with
  | null =>
    rw [readOverride, Flags.get_off]
    rfl
  | table es => exact switched_of_readTable h flag
  | _ => cases h

/-! ## Settings that are accepted -/

/-- What is stated for a field is one of the values. -/
theorem keyed_stated? {P : Value → Prop} {field : String} {v : Value}
    (h : Keyed P (.table entries)) (hv : stated? entries field = some v) : Keyed P v := by
  obtain ⟨e, he, rfl⟩ := Option.map_eq_some_iff.mp hv
  exact h.values e (List.mem_reverse.mp (List.mem_of_find?_eq_some he))

/-- No other key of the explicit overrides spells the language. -/
def Sole (entries : List (Value × Value)) (language : String) : Prop :=
  ∀ e ∈ inner (stated? entries "parser_settings"),
    (readText e.1).value = language → e.1 = .text language

/-- The override of a language is read as the explicit value laid over that of the environment. -/
theorem override_of_build {language : String} (hbuild : build env entries = .ok s)
    (keyed : Keyed (fun _ => True) (.table entries)) (sole : Sole entries language) :
    let own := laid ((Source.environment env).override language)
      ((Source.explicit entries).override language)
    s.overrides.get? language = own.map (fun v => (readOverride v).value) ∧
      ∀ v, own = some v → (readOverride v).complaints = [] := by
  obtain ⟨merged, hmerged, hc, rfl⟩ := build_eq_ok.mp hbuild
  have read := (read_complaints.mp hc).2.2
  have overrides : (Settings.read merged).value.overrides =
    (readOverrides (member? merged "parser_settings")).value := rfl
  rw [overrides]
  rw [member?_gather hmerged (by decide)] at read ⊢
  exact get?_overlaid (fun _ => keyed_supplied?) (fun _ => keyed_stated? keyed) sole read

/-- A table whose overrides are keyed by texts is handed over, and gives these settings. -/
structure Accepted (env : Environment) (entries : List (Value × Value)) (s : Settings) : Prop where
  keyed : Keyed (fun _ => True) (.table entries)
  texts : ∀ es, stated? entries "parser_settings" = some (.table es) → ∀ e ∈ es, IsText e.1
  coerced : coerce env (.table entries) = .ok (some s)

theorem Accepted.build (h : Accepted env entries s) : Settings.build env entries = .ok s :=
  coerce_eq_ok.mp h.coerced

/-- Texts spell one language each. -/
theorem Accepted.sole (h : Accepted env entries s) (language : String) : Sole entries language := by
  intro e he hl
  obtain ⟨es, hes, hmem⟩ := mem_inner.mp he
  obtain ⟨n, hn⟩ := h.texts es hes e hmem
  rw [hn] at hl ⊢
  exact congrArg Value.text hl

/-- The global switches are read as the explicit values, or else those of the environment. -/
theorem Accepted.switched_global (h : Accepted env entries s) (flag : Flag) :
    switched (((Source.explicit entries).flag flag).or ((Source.environment env).flag flag)) =
      ⟨s.flags.get flag, []⟩ := by
  obtain ⟨merged, hmerged, hc, rfl⟩ := build_eq_ok.mp h.build
  have known : flag.name ∈ fieldNames := by cases flag <;> decide
  have read := switched_of_readTable (read_complaints.mp hc).2.1 flag
  rwa [member?_gather hmerged known, switched_laid] at read

/-- With an override the deciding value is the one in the override. -/
theorem switched_deciding {mine theirs : Source} {language : String} {v : Value}
    (hv : laid (theirs.override language) (mine.override language) = some v)
    (hm : ∀ es, mine.override language = some (.table es) → KeysDiffer es)
    (hc : (readOverride v).complaints = []) (flag : Flag) :
    switched (deciding mine theirs language flag) = ⟨(readOverride v).value.get flag, []⟩ := by
  rw [← switched_of_readOverride hc]
  unfold deciding
  cases hmine : mine.override language with
  | none =>
    rw [hmine, laid_none_right] at hv
    rw [hv]
  | some w =>
    rw [hmine] at hv hm
    cases w with
    | table es =>
      cases htheirs : theirs.override language with
      | none =>
        rw [htheirs, laid_none_left, Option.some_inj] at hv
        subst hv
        exact congrArg switched Option.or_none
      | some b =>
        rw [htheirs] at hv
        cases hv
        rw [field?_overlay_table (hm es rfl), switched_laid]
        rfl
    | null =>
      rw [laid_of_not_table rfl, Option.some_inj] at hv
      subst hv
      rfl
    | _ =>
      rw [laid_of_not_table rfl, Option.some_inj] at hv
      subst hv
      cases hc

/-- The rule, for one language. -/
theorem Accepted.switched_resolve (h : Accepted env entries s) (language : String) (flag : Flag) :
    switched (deciding (.explicit entries) (.environment env) language flag) =
      ⟨(s.resolve (some language)).get flag, []⟩ := by
  obtain ⟨hget, hc⟩ := override_of_build h.build h.keyed (h.sole language)
  have resolved : s.resolve (some language) = (s.overrides.get? language).getD s.flags := rfl
  rw [resolved, hget]
  cases hown : laid ((Source.environment env).override language)
      ((Source.explicit entries).override language) with
  | none =>
    obtain ⟨htheirs, hmine⟩ := laid_eq_none.mp hown
    have global : deciding (.explicit entries) (.environment env) language flag =
        ((Source.explicit entries).flag flag).or ((Source.environment env).flag flag) := by
      unfold deciding
      rw [htheirs, hmine]
    rw [global]
    exact h.switched_global flag
  | some v =>
    refine switched_deciding hown (fun es hes => ?_) (hc v hown) flag
    obtain ⟨w, hw, hes⟩ := Option.bind_eq_some_iff.mp hes
    cases w with
    | table ps =>
      have keyed : Keyed (fun _ => True) (.table ps) := keyed_stated? h.keyed hw
      exact (keyed.values _ (mem_of_member? hes)).keysDiffer
    | _ => cases hes

/-- **Precedence.** In settings that are accepted a switch of a language is what the deciding value is
read as, and off if there is none, for every environment and explicit table. So two environments and
tables that say the same about a language give it the same switches, whatever they say about other
languages; and if they have an override for it, whatever their global values are. -/
theorem get_resolve (h : Accepted env entries s) :
    (∀ language flag,
      switched (deciding (.explicit entries) (.environment env) language flag) =
        ⟨(s.resolve (some language)).get flag, []⟩) ∧
    ∀ env' entries' s', Accepted env' entries' s' → ∀ language,
      (Source.explicit entries).override language = (Source.explicit entries').override language →
      (Source.environment env).override language = (Source.environment env').override language →
      ((Source.explicit entries).override language ≠ none ∨
        (Source.environment env).override language ≠ none ∨
        ∀ flag, (Source.explicit entries).flag flag = (Source.explicit entries').flag flag ∧
          (Source.environment env).flag flag = (Source.environment env').flag flag) →
      s.resolve (some language) = s'.resolve (some language) := by
  refine ⟨h.switched_resolve, fun env' entries' s' h' language hmine htheirs hcase => ?_⟩
  refine flags_ext fun flag => ?_
  have decided : deciding (.explicit entries) (.environment env) language flag =
      deciding (.explicit entries') (.environment env') language flag :=
    deciding_congr hmine htheirs (hcase.imp_right fun h => h.imp_right fun h => h flag)
  have switches := (h.switched_resolve language flag).symm.trans
    ((congrArg switched decided).trans (h'.switched_resolve language flag))
  exact congrArg Reading.value switches

/-- Overrides for two languages, as JSON. -/
def overridesText : String :=
  "\x7b\"lua\": \x7b\"highlights\": true, \"folds\": \"on\"\x7d, " ++
    "\"zimbu\": \x7b\"folds\": true\x7d\x7d"

/-- Folds are on everywhere, but for lua; zimbu is silenced. -/
def foldsButLua : List (Value × Value) :=
  [(.text "folds", .bool true),
    (.text "parser_settings", .table
      [(.text "lua", .table [(.text "folds", .bool false)]), (.text "zimbu", .null)])]

/-- What comes of both. -/
def foldsButLuaSettings : Settings where
  flags := { folds := true }
  overrides := [("lua", { highlights := true }), ("zimbu", {})]

theorem accepted_foldsButLua :
    Accepted [("TS_ENABLE_PARSER_SETTINGS", overridesText)] foldsButLua foldsButLuaSettings where
  keyed := by
    refine .table (by decide +kernel) (fun _ _ => trivial) ?_
    refine List.forall_mem_cons.mpr ⟨.other rfl, List.forall_mem_singleton.mpr ?_⟩
    refine .table (by decide +kernel) (fun _ _ => trivial) ?_
    refine List.forall_mem_cons.mpr ⟨?_, List.forall_mem_singleton.mpr (.other rfl)⟩
    exact .table (by decide +kernel) (fun _ _ => trivial) (List.forall_mem_singleton.mpr (.other rfl))
  texts := by
    intro es hes
    cases hes
    exact List.forall_mem_cons.mpr ⟨⟨_, rfl⟩, List.forall_mem_singleton.mpr ⟨_, rfl⟩⟩
  coerced := coerce_eq_ok.mpr (toOption_eq_some.mp (by decide +kernel))

/-- For lua the folds come from the explicit table and the highlights from the environment, zimbu has
nothing, and the global folds are left to other languages. -/
theorem get_resolve_foldsButLua :
    let env : Environment := [("TS_ENABLE_PARSER_SETTINGS", overridesText)]
    let position := fun language flag =>
      switched (deciding (.explicit foldsButLua) (.environment env) language flag)
    coerce env (.table foldsButLua) = .ok (some foldsButLuaSettings) ∧
      position "lua" .highlights = ⟨true, []⟩ ∧ position "lua" .folds = ⟨false, []⟩ ∧
      position "zimbu" .folds = ⟨false, []⟩ ∧ position "zig" .folds = ⟨true, []⟩ := by
  intro env position
  have rule := (get_resolve accepted_foldsButLua).1
  exact ⟨accepted_foldsButLua.coerced, rule "lua" .highlights, rule "lua" .folds,
    rule "zimbu" .folds, rule "zig" .folds⟩

end TreeFeatures.Settings
