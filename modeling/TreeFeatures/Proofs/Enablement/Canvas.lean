import TreeFeatures.Proofs.Alike
import TreeFeatures.Proofs.Enablement.Completion
import TreeFeatures.Script.Stage

/-!
# What is shown of a document

A `Canvas` is what showing the features of a document needs of the surroundings: the answers depend
only on the face that the surroundings show and on whether the grammar of the language is registered,
only calls about features and options change the face, and only the installer registers the grammar.

* `Echoes`: a world looks the same as another one. `Shown`: next to that a filetype is available.
  `blind_echoes` and `blind_shown` say what does not make them false.
* `Canvas.twins`: showing the features of the document runs alike in worlds that look the same.
* `Script.Stage.canvas`: a scripted editor is a canvas for every document and language.
-/

namespace TreeFeatures

open Act Install

/-- The calls by which the features of a document are shown or looked at. -/
def Call.Presents (document : Handle) (c : Call) : Prop :=
  c.Shows document ∨ c = .isHighlighting document

namespace Enablement

variable {σ τ : Type} {s : Surroundings σ} {face : σ → τ} {document : Handle}
  {filetype l : String} {u v : World σ}

/-! ## What is shown -/

/-- Whether the surroundings would register the grammar of a language in a state of theirs. -/
def accepts (s : Surroundings σ) (l : String) (o : σ) : Bool :=
  registers s l { state := {}, outside := o, trace := [], log := [] }

/-- Surroundings in which only the face that they show, and whether the grammar of a language is
registered, matter for showing the features of a document; only calls about features and options
change the face, and only the installer registers the grammar. -/
structure Canvas (s : Surroundings σ) (face : σ → τ) (l : String) (document : Handle) : Prop where
  presents : ∀ c : Call, c.Presents document → ∀ o o', face o = face o' →
    accepts s l o = accepts s l o' →
    (s.reply c o).1 = (s.reply c o').1 ∧ face (s.reply c o).2 = face (s.reply c o').2
  registered : ∀ c : Call, c.area ≠ .installer → ∀ o, accepts s l (s.reply c o).2 = accepts s l o
  other : ∀ c : Call, c.area ≠ .features → c.area ≠ .options → ∀ o,
    face (s.reply c o).2 = face o

/-- Two worlds look the same: the features of all documents are in the same state, and so are the
surroundings, as far as that matters. -/
structure Echoes (s : Surroundings σ) (face : σ → τ) (l : String) (v u : World σ) : Prop where
  features : v.state.features = u.state.features
  face : face v.outside = face u.outside
  registered : accepts s l v.outside = accepts s l u.outside

/-- A world looks the same as another one, and the filetype is available. -/
def Shown (s : Surroundings σ) (face : σ → τ) (l filetype : String) (u v : World σ) : Prop :=
  Echoes s face l v u ∧ Assoc.get? v.state.registry filetype = some .available

theorem blind_echoes (h : Canvas s face l document) {parts : List Part} {areas : List Area}
    (hparts : Part.features ∉ parts) (hfeatures : Area.features ∉ areas)
    (hoptions : Area.options ∉ areas) (hinstaller : Area.installer ∉ areas) :
    Blind s parts areas fun v => Echoes s face l v u where
  log _ _ hv := { hv with }
  write p hp v st hst hv := by
    cases hst with
    | features => exact absurd hp hparts
    | _ => exact { hv with }
  ask c hc v hv :=
    { features := hv.features
      face := (h.other c (fun e => hfeatures (e ▸ hc)) (fun e => hoptions (e ▸ hc)) _).trans hv.face
      registered := (h.registered c (fun e => hinstaller (e ▸ hc)) _).trans hv.registered }

theorem blind_shown (h : Canvas s face l document) {parts : List Part} {areas : List Area}
    (hfeatures : Part.features ∉ parts) (hregistry : Part.registry ∉ parts)
    (hcalls : Area.features ∉ areas) (hoptions : Area.options ∉ areas)
    (hinstaller : Area.installer ∉ areas) :
    Blind s parts areas (Shown s face l filetype u) :=
  (blind_echoes h hfeatures hcalls hoptions hinstaller).and (blind_entry hregistry)

/-- Only the installer registers the grammar. -/
theorem Canvas.blind_registered (h : Canvas s face l document) {parts : List Part} {areas : List Area}
    (hinstaller : Area.installer ∉ areas) (a : Bool) :
    Blind s parts areas fun v => accepts s l v.outside = a :=
  ⟨fun _ _ hv => hv, fun _ _ _ _ _ hv => hv,
    fun c hc _ hv => (h.registered c (fun e => hinstaller (e ▸ hc)) _).trans hv⟩

theorem Canvas.unheard (h : Canvas s face l document) (a : Bool) (l' : String) :
    Unheard s l' fun v => accepts s l v.outside = a where
  blind := h.blind_registered (by simp) a
  dequeue _ hv := hv
  forget _ hv := hv
  told _ _ _ hv := hv
  requested _ _ _ hv := hv
  dispatch r _ :=
    Gateway.keeps_dispatch (h.blind_registered (by simp) a) r.languages r.callback

/-- Worlds that look the same look the same to whoever shows the features of the document. -/
theorem Canvas.twins (h : Canvas s face l document) : Twins s document (Echoes s face l) where
  log _ _ _ _ hv := { hv with }
  features _ _ hv := hv.features
  change _ _ f hv := ⟨congrArg f hv.features, hv.face, hv.registered⟩
  ask c hc w v hv := by
    have installer : c.area ≠ .installer := by
      intro e
      have := hc.area
      simp [e] at this
    have presented := h.presents c (.inl hc) _ _ hv.face hv.registered
    have registered : accepts s l (s.reply c w.outside).2 = accepts s l (s.reply c v.outside).2 :=
      (h.registered c installer _).trans (hv.registered.trans (h.registered c installer _).symm)
    exact ⟨presented.1, hv.features, presented.2, registered⟩

/-- Showing features next to a filetype that is available. -/
theorem twins_shown (h : Canvas s face l document) :
    Twins s document fun v u => Shown s face l filetype u v :=
  h.twins.and (blind_entry (by simp)) fun _ _ hw => hw

end Enablement

/-! ## A scripted editor -/

namespace Script.Stage

open Enablement

variable {document : Handle} {c : Call} {l : String} {st : Stage}

/-- What a scripted editor shows: all of it but the grammars that are registered. -/
def shown (st : Stage) : Editor := { st.editor with installed := [] }

/-- A scripted editor with nothing around it. -/
def bare (e : Editor) : Stage := { editor := e, machine := .empty }

/-- The editor answers from what it shows, unless it is asked for a grammar. -/
theorem reply_shown (hc : c.area ∈ [Area.features, .options, .editor])
    (hgrammar : ∀ l, c ≠ .addLanguage l) (st : Stage) :
    (reply c st).1 = (reply c (bare st.shown)).1 ∧
      (reply c st).2.shown = (reply c (bare st.shown)).2.shown := by
  unfold reply
  by_cases hf : st.editor.fails c = true
  · have hf' : (bare st.shown).editor.fails c = true := hf
    rw [if_pos hf, if_pos hf']
    exact ⟨rfl, rfl⟩
  · have hf' : ¬ (bare st.shown).editor.fails c = true := hf
    rw [if_neg hf, if_neg hf']
    cases c with
    | addLanguage l => exact absurd rfl (hgrammar l)
    | getOption scope _ _ => cases scope <;> exact ⟨rfl, rfl⟩
    | setOption scope _ _ _ => cases scope <;> exact ⟨rfl, rfl⟩
    | _ => first | exact ⟨rfl, rfl⟩ | simp [Call.area] at hc

theorem editor_tell (st : Stage) (name : String) : (st.tell name).2.editor = st.editor := by
  unfold tell
  split <;> rfl

theorem shown_install (st : Stage) (languages : List String) :
    (st.install languages).2.shown = st.shown := by
  unfold install
  dsimp only
  split <;> rfl

theorem shown_collect (st : Stage) (ticket : Nat) : (st.collect ticket).2.shown = st.shown := by
  unfold collect
  split <;> rfl

/-- Other calls change nothing that is shown. -/
theorem shown_reply (hfeatures : c.area ≠ .features) (hoptions : c.area ≠ .options) (st : Stage) :
    (reply c st).2.shown = st.shown := by
  unfold reply
  split
  · rfl
  · cases c with
    | install languages => exact shown_install st languages
    | collect ticket => exact shown_collect st ticket
    | tell name language success =>
      have editor : (st.tell name).2.editor = st.editor := editor_tell st name
      show ({ (st.tell name).2.editor with installed := [] } : Editor) = _
      rw [editor]
      rfl
    | _ => first | rfl | exact absurd rfl hfeatures | exact absurd rfl hoptions

/-- Only the installer changes what registering a grammar depends on. -/
theorem registering_reply (hc : c.area ≠ .installer) (st : Stage) :
    (reply c st).2.editor.installed = st.editor.installed ∧
      (reply c st).2.editor.additions = st.editor.additions ∧
      (reply c st).2.editor.failing = st.editor.failing := by
  unfold reply
  split
  · exact ⟨rfl, rfl, rfl⟩
  · cases c with
    | install languages => exact absurd rfl hc
    | collect ticket => exact absurd rfl hc
    | tell name language success =>
      have editor : (st.tell name).2.editor = st.editor := editor_tell st name
      show (st.tell name).2.editor.installed = _ ∧ (st.tell name).2.editor.additions = _ ∧
        (st.tell name).2.editor.failing = _
      rw [editor]
      exact ⟨rfl, rfl, rfl⟩
    | getOption scope _ _ => cases scope <;> exact ⟨rfl, rfl, rfl⟩
    | setOption scope _ _ _ => cases scope <;> exact ⟨rfl, rfl, rfl⟩
    | _ => exact ⟨rfl, rfl, rfl⟩

theorem accepts_eq (l : String) (st : Stage) : accepts surroundings l st =
    accepts surroundings l (bare
      { installed := st.editor.installed
        additions := st.editor.additions
        failing := st.editor.failing }) := by
  let e : Editor :=
    { installed := st.editor.installed
      additions := st.editor.additions
      failing := st.editor.failing }
  have answered : (reply (.addLanguage l) st).1 = (reply (.addLanguage l) (bare e)).1 := by
    unfold reply
    by_cases hf : st.editor.fails (.addLanguage l) = true
    · have hf' : (bare e).editor.fails (.addLanguage l) = true := hf
      rw [if_pos hf, if_pos hf']
    · have hf' : ¬ (bare e).editor.fails (.addLanguage l) = true := hf
      rw [if_neg hf, if_neg hf']
      rfl
  unfold accepts registers surroundings
  rw [answered]

/-- **A scripted editor is a canvas.** -/
theorem canvas (l : String) (document : Handle) : Canvas surroundings shown l document where
  presents c hc o o' hface _ := by
    obtain ⟨area, grammar⟩ : c.area ∈ [Area.features, .options, .editor] ∧
        ∀ l, c ≠ .addLanguage l := by
      rcases hc with hc | rfl
      · refine ⟨List.mem_append_left [Area.editor] hc.area, ?_⟩
        rintro l rfl
        exact hc.elim
      · exact ⟨by simp [Call.area], nofun⟩
    obtain ⟨hreply, hshown⟩ := reply_shown area grammar o
    obtain ⟨hreply', hshown'⟩ := reply_shown area grammar o'
    rw [hface] at hreply hshown
    exact ⟨hreply.trans hreply'.symm, hshown.trans hshown'.symm⟩
  registered c hc o := by
    obtain ⟨hinstalled, hadditions, hfailing⟩ := registering_reply hc o
    have after := accepts_eq l (reply c o).2
    rw [hinstalled, hadditions, hfailing, ← accepts_eq l o] at after
    exact after
  other c hfeatures hoptions o := shown_reply hfeatures hoptions o

end Script.Stage

end TreeFeatures
