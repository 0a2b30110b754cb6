import TreeFeatures.Proofs.Settings.Loading
import TreeFeatures.Proofs.Settings.Overlay

/-!
# Settings from two sources

What `Settings.build` makes of explicit entries and an environment, field by field.

* `supplied?`, `stated?`: the value that the environment and the explicit entries give to a field.
  `member?_gather`: what is read is the second laid over the first.
* `build_eq_ok`, `read_complaints`: settings are accepted if there is no complaint about any part.
* `readEntries_complaints`, `readEntries_congr`, `get?_readEntries`: what the overrides of a table are
  read as. `get?_overlaid`: the override of one language, from its values in the two sources. A key in
  bytes may spell a language too, so this asks for a language that no other key spells.
-/

namespace TreeFeatures

namespace Settings

open Value

variable {env : Environment} {explicit merged : List (Value × Value)} {field : String}

/-! ## The value of a field -/

/-- The value that the environment gives to a field; null is none where it stands for nothing. -/
def supplied? (env : Environment) (field : String) : Option Value :=
  match fromVariable env field with
  | .ok v => v
  | .error _ => none

/-- A key is the name of a field, in some case. -/
def spells (field : String) : Value → Bool
  | .text s => Flag.lowered s == field
  | _ => false

/-- The value that explicit entries give to a field; of several the last one. -/
def stated? (explicit : List (Value × Value)) (field : String) : Option Value :=
  (explicit.reverse.find? fun e => spells field e.1).map Prod.snd

theorem lowered_of_mem_fieldNames (h : field ∈ fieldNames) : Flag.lowered field = field := by
  have all : ∀ f ∈ fieldNames, Flag.lowered f = f := by decide
  exact all field h

/-- The entries that come under the name of a field are those that spell it. -/
theorem canonicalName_eq_text (h : field ∈ fieldNames) {k : Value} :
    canonicalName k = .text field ↔ spells field k = true := by
  cases k with
  | text s =>
    unfold canonicalName spells
    dsimp only
    split
    · simp
    · next hs =>
      have other : s ≠ field := by
        rintro rfl
        exact hs (List.contains_iff_mem.mpr ((lowered_of_mem_fieldNames h).symm ▸ h))
      have lowered : Flag.lowered s ≠ field := fun e => hs (List.contains_iff_mem.mpr (e ▸ h))
      simp [other, lowered]
  | _ => simp [canonicalName, spells]

theorem member?_canonical (h : field ∈ fieldNames) :
    member? (canonical explicit) field = stated? explicit field := by
  unfold canonical stated?
  rw [member?_collapse, ← List.map_reverse]
  induction explicit.reverse with
  | nil => rfl
  | cons e rest ih =>
    by_cases hk : canonicalName e.1 = .text field
    · have spelt := (canonicalName_eq_text h).mp hk
      rw [List.map_cons, hk, member?_cons_self, List.find?_cons_of_pos]
      · rfl
      · exact spelt
    · have other := mt (canonicalName_eq_text h).mpr hk
      rw [List.map_cons, member?_cons_of_ne hk, ih, List.find?_cons_of_neg]
      exact other

/-- What the variables give to the fields of a list. -/
theorem member?_fromVariables {fields : List String} {base : List (Value × Value)}
    (h : fromVariables env fields = .ok base) :
    member? base field = if field ∈ fields then supplied? env field else none := by
  induction fields generalizing base with
  | nil =>
    cases h
    rfl
  | cons other rest ih =>
    obtain ⟨v?, hv, h⟩ := bind_eq_ok.mp h
    obtain ⟨more, hmore, h⟩ := bind_eq_ok.mp h
    have given : supplied? env other = v? := by rw [supplied?, hv]
    have later := ih hmore
    by_cases hf : other = field
    · subst hf
      rw [if_pos List.mem_cons_self, given]
      cases v? with
      | some v =>
        cases h
        exact member?_cons_self
      | none =>
        cases h
        rw [later, given, ite_self]
    · have kept : member? base field = member? more field := by
        cases v? with
        | some v =>
          cases h
          exact member?_cons_of_ne fun e => hf (Value.text.inj e)
        | none =>
          cases h
          rfl
      have tail : (field ∈ other :: rest) = (field ∈ rest) := by
        rw [List.mem_cons, eq_false (Ne.symm hf), false_or]
      rw [kept, later]
      simp only [tail]

/-- **The value of a field**: what is stated for it, laid over what the environment supplies. -/
theorem member?_gather (h : gather env explicit = .ok merged) (hf : field ∈ fieldNames) :
    member? merged field = laid (supplied? env field) (stated? explicit field) := by
  unfold gather at h
  split at h
  · cases h
  · obtain ⟨base, hbase, h⟩ := bind_eq_ok.mp h
    cases h
    have differ : KeysDiffer (canonical explicit) := keysDiffer_collapse _
    rw [member?_overlayEntries differ, member?_fromVariables hbase, if_pos hf, member?_canonical hf]

/-! ## Tables of the environment -/

theorem keyed_supplied? {v : Value} (h : supplied? env field = some v) : Keyed IsText v := by
  unfold supplied? fromVariable at h
  split at h
  · next w hw =>
    subst h
    split at hw
    · cases hw
    · split at hw
      · split at hw
        · cases hw
        · cases hw
        · next v' hread =>
          cases hw
          exact Json.keyed_read hread
      · cases hw
        exact .other rfl
  · cases h

/-! ## Settings that are accepted -/

/-- Settings are made exactly if the entries can be gathered and there is no complaint about them. -/
theorem build_eq_ok {s : Settings} : build env explicit = .ok s ↔
    ∃ merged, gather env explicit = .ok merged ∧ (read merged).complaints = [] ∧
      (read merged).value = s := by
  constructor
  · intro h
    obtain ⟨merged, hmerged, -⟩ := bind_eq_ok.mp h
    rw [build_of_gather hmerged, Reading.accepted?] at h
    split at h
    · next hc =>
      cases h
      exact ⟨merged, hmerged, List.isEmpty_iff.mp hc, rfl⟩
    · cases h
  · rintro ⟨merged, hmerged, hc, rfl⟩
    rw [build_of_gather hmerged, Reading.accepted?, hc]
    rfl

/-- A report is made of a failure only. -/
theorem buildFrom_eq_ok {s : Settings} {headline : String} {reported : Option String} :
    buildFrom env explicit headline reported = .ok s ↔ build env explicit = .ok s := by
  unfold buildFrom
  cases build env explicit with
  | ok _ => simp
  | error e => cases e <;> simp

/-- A table that is handed over is accepted exactly if settings are made of it. -/
theorem coerce_eq_ok {s : Settings} :
    coerce env (.table explicit) = .ok (some s) ↔ build env explicit = .ok s := by
  let headline := "Invalid ts-enable configuration"
  have made : buildFrom env explicit headline none = .ok s ↔ build env explicit = .ok s :=
    buildFrom_eq_ok
  have coerced : coerce env (.table explicit) = (buildFrom env explicit headline none).map some := rfl
  rw [← made, coerced]
  cases buildFrom env explicit headline none with
  | ok _ => simp [Except.map]
  | error _ => simp [Except.map]

/-- There is no complaint about settings exactly if there is none about their parts. -/
theorem read_complaints : (read merged).complaints = [] ↔
    (readParsers (member? merged "parsers")).complaints = [] ∧
      (Flags.readTable merged).complaints = [] ∧
      (readOverrides (member? merged "parser_settings")).complaints = [] := by
  simp only [read, List.append_eq_nil_iff, and_assoc]

/-- The switches that are read depend on the values of their names. -/
theorem readTable_congr {es fs : List (Value × Value)}
    (h : ∀ flag : Flag, member? es flag.name = member? fs flag.name) :
    Flags.readTable es = Flags.readTable fs := by
  have read : ∀ flag : Flag, flag.read es = flag.read fs := by
    intro flag
    unfold Flag.read
    rw [h flag]
  simp only [Flags.readTable, read]

/-! ## Overrides -/

variable {es : List (Value × Value)} {acc : Reading (Assoc String Flags)} {language : String}

theorem under_complaints {α : Type} {place : Place} {r : Reading α} :
    (r.under place).complaints = [] ↔ r.complaints = [] := List.map_eq_nil_iff

/-- There is no complaint about overrides exactly if there is none about a key or a value. -/
theorem readEntries_complaints : (readEntries es acc).complaints = [] ↔ acc.complaints = [] ∧
    ∀ e ∈ es, (readText e.1).complaints = [] ∧ (readOverride e.2).complaints = [] := by
  induction es generalizing acc with
  | nil => simp [readEntries]
  | cons e rest ih =>
    rw [readEntries, ih]
    simp only [List.append_eq_nil_iff, under_complaints, List.forall_mem_cons, and_assoc]

/-- The overrides that are read depend on the keys and on what the values are read as. -/
theorem readEntries_congr {fs : List (Value × Value)}
    (h : es.map (fun e => (e.1, readOverride e.2)) = fs.map fun e => (e.1, readOverride e.2)) :
    readEntries es acc = readEntries fs acc := by
  induction es generalizing fs acc with
  | nil =>
    cases List.map_eq_nil_iff.mp h.symm
    rfl
  | cons e rest ih =>
    cases fs with
    | nil => cases h
    | cons f more =>
      obtain ⟨hkey, hvalue⟩ := Prod.mk.inj (List.cons.inj h).1
      rw [readEntries, readEntries, hkey, hvalue, ih (List.cons.inj h).2]

/-- Of a language that one key at most spells, the flags are what the value of that key is read as. -/
theorem get?_readEntries (differ : KeysDiffer es)
    (sole : ∀ e ∈ es, (readText e.1).value = language → e.1 = .text language) :
    (readEntries es acc).value.get? language =
      ((member? es language).map fun v => (readOverride v).value).or (acc.value.get? language) := by
  induction es generalizing acc with
  | nil => rfl
  | cons e rest ih =>
    obtain ⟨k, v⟩ := e
    obtain ⟨hk, hrest⟩ := List.forall_mem_cons.mp sole
    rw [readEntries, ih differ.of_cons hrest]
    by_cases hl : (readText k).value = language
    · have key : k = .text language := hk hl
      subst key
      rw [differ.member?_tail, member?_cons_self]
      exact Assoc.get?_put_self _ _ _
    · have key : k ≠ .text language := by
        rintro rfl
        exact hl rfl
      rw [member?_cons_of_ne key]
      exact congrArg _ (Assoc.get?_put_of_ne _ _ hl)

/-- The same of a table of overrides. -/
theorem get?_readOverrides {v? : Option Value} (differ : KeysDiffer (inner v?))
    (sole : ∀ e ∈ inner v?, (readText e.1).value = language → e.1 = .text language)
    (hc : (readOverrides v?).complaints = []) :
    (readOverrides v?).value.get? language =
        (v?.bind (·.field? language)).map (fun v => (readOverride v).value) ∧
      ∀ v, v?.bind (·.field? language) = some v → (readOverride v).complaints = [] := by
  cases v? with
  | none => exact ⟨rfl, nofun⟩
  | some w =>
    cases w with
    | table es =>
      refine ⟨?_, fun v hv => ?_⟩
      · refine (get?_readEntries differ sole).trans ?_
        exact Option.or_none
      · exact ((readEntries_complaints.mp (under_complaints.mp hc)).2 _ (mem_of_member? hv)).2
    | _ => cases hc

theorem exists_table_of_readOverrides {b? : Option Value} {v : Value}
    (hc : (readOverrides (laid b? (some v))).complaints = []) : ∃ es, v = .table es := by
  cases v with
  | table es => exact ⟨es, rfl⟩
  | _ =>
    rw [laid_of_not_table rfl] at hc
    cases hc

/-- **The override of a language** is what its value in one table, laid over that in the other one, is
read as. -/
theorem get?_overlaid {P : Value → Prop} {b? v? : Option Value}
    (hb : ∀ b, b? = some b → Keyed IsText b) (hv : ∀ v, v? = some v → Keyed P v)
    (sole : ∀ e ∈ inner v?, (readText e.1).value = language → e.1 = .text language)
    (hc : (readOverrides (laid b? v?)).complaints = []) :
    let own := laid (b?.bind (·.field? language)) (v?.bind (·.field? language))
    (readOverrides (laid b? v?)).value.get? language =
        own.map (fun v => (readOverride v).value) ∧
      ∀ v, own = some v → (readOverride v).complaints = [] := by
  have base := inner_keyed hb
  have spelt : ∀ e ∈ inner b?, (readText e.1).value = language → e.1 = .text language := by
    intro e he hl
    obtain ⟨n, hn⟩ := base.2 e he
    rw [hn] at hl ⊢
    exact congrArg Value.text hl
  cases v? with
  | none =>
    rw [laid_none_right] at hc
    simp only [laid_none_right, Option.bind_none]
    exact get?_readOverrides base.1 spelt hc
  | some v =>
    obtain ⟨es, rfl⟩ := exists_table_of_readOverrides hc
    have differ : KeysDiffer es := (hv _ rfl).keysDiffer
    rw [laid_table differ] at hc ⊢
    have joined : laid (b?.bind (·.field? language)) (member? es language) =
        member? (overlayEntries (inner b?) es) language := by
      rw [member?_overlayEntries differ, member?_inner]
    have soles := keys_overlayEntries
      (P := fun k => (readText k).value = language → k = .text language) spelt sole
    intro own
    have own_eq : own = member? (overlayEntries (inner b?) es) language := joined
    have differ' : KeysDiffer (inner (some (.table (overlayEntries (inner b?) es)))) :=
      base.1.overlayEntries es
    rw [own_eq]
    exact get?_readOverrides differ' soles hc

end Settings

end TreeFeatures
