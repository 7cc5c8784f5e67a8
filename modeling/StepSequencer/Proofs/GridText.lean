import StepSequencer.Proofs.LayerText

/-! The text of a grid gives its audible layers back, whatever their hits, where commas part the
layers and no sound has a comma. -/

namespace StepSequencer

/-- A sound whose text is one word that stands for itself wherever it is written. -/
structure PlainSound (sound : List Char) : Prop extends SoundWord sound where
  not_comma : ',' ∉ sound

theorem wholeBars_iff {stepCount : Nat} :
    wholeBars stepCount = true ↔ ∃ bars, stepCount = stepsPerBar * (bars + 1) := by
  simp only [wholeBars, Bool.and_eq_true, decide_eq_true_eq, beq_iff_eq, stepsPerBar]
  constructor
  · rintro ⟨hp, hm⟩
    exact ⟨stepCount / 16 - 1, by omega⟩
  · rintro ⟨bars, rfl⟩
    omega

theorem beats_of_wholeBars {stepCount : Nat} (h : wholeBars stepCount = true) :
    ∃ width, 0 < width ∧ stepCount = beatsPerBar * width := by
  obtain ⟨bars, rfl⟩ := wholeBars_iff.mp h
  refine ⟨4 * (bars + 1), by omega, ?_⟩
  simp only [stepsPerBar, beatsPerBar]
  omega

theorem voices_joined {texts : List (List Char)} (h : ∀ text ∈ texts, depth text = 0) :
    voices (joined [',', ' '] texts) = texts.flatMap voices :=
  segments_intercalate (by decide) (by decide) (List.forall_mem_singleton.mpr (by decide))
    fun text ht => h text (List.dropLast_subset _ ht)

theorem layersOfText_joined {texts : List (List Char)} (stepCount : Int)
    (h : ∀ text ∈ texts, depth text = 0) :
    layersOfText (joined [',', ' '] texts) stepCount =
      texts.flatMap fun text => layersOfText text stepCount := by
  simp only [layersOfText, voices_joined h, List.map_flatMap]

namespace Layer

variable {layer : Layer} {width : Nat}

theorem shielded_tree (h : ',' ∉ layer.sound.toList) : layer.tree.Shielded := by
  rw [tree]
  split
  · exact .repeated (.atomic h)
  · exact .sequence (List.forall_mem_map.mpr fun beat _ => shielded_beatToken (.inl h))

theorem depth_text (hl : layer.steps.length = beatsPerBar * width) (hw : 0 < width)
    (h : SoundWord layer.sound.toList) : depth (layer.text layer.steps.length) = 0 := by
  rw [← spell_tree hl hw]
  exact (wellFormed_tree h.plainWord).balanced_spell.depth_eq

theorem layersOfText_text_of_shielded (hl : layer.steps.length = beatsPerBar * width)
    (hw : 0 < width) (ha : layer.audible = true) (h : SoundWord layer.sound.toList)
    (hs : layer.tree.Shielded) :
    layersOfText (layer.text layer.steps.length) layer.steps.length = [layer] := by
  have ht := wellFormed_tree h.plainWord
  have hv : voices (layer.text layer.steps.length) = [layer.text layer.steps.length] := by
    rw [← spell_tree hl hw]
    exact segments_of_whole (ht.whole_spell hs) ht.trimmed_spell
  simp only [audible, Bool.and_eq_true, Bool.not_eq_true'] at ha
  obtain ⟨hm, ha⟩ := ha
  rw [layersOfText, hv, List.map_singleton, ofText_text hl ha h, ← hm]

end Layer

theorem Grid.text_of_audible {grid : Grid} (h : grid.layers.filter Layer.audible ≠ []) :
    grid.text = joined [',', ' ']
      ((grid.layers.filter Layer.audible).map (·.text grid.stepCount)) := by
  rw [Grid.text]
  split
  next hn => exact absurd hn h
  next => rfl

theorem Grid.text_of_silent {grid : Grid} (h : grid.layers.filter Layer.audible = []) :
    grid.text = restText := by
  simp [Grid.text, h]

theorem Grid.layersOfText_eq_flatMap {grid : Grid} (hv : grid.Valid)
    (hn : grid.layers.filter Layer.audible ≠ [])
    (hs : ∀ layer ∈ grid.layers, layer.audible = true → SoundWord layer.sound.toList) :
    layersOfText grid.text grid.stepCount = (grid.layers.filter Layer.audible).flatMap
      fun layer => layersOfText (layer.text grid.stepCount) grid.stepCount := by
  obtain ⟨width, hw, he⟩ := beats_of_wholeBars hv.wholeBars
  rw [Grid.text_of_audible hn, layersOfText_joined, List.flatMap_map]
  refine List.forall_mem_map.mpr fun layer hm => ?_
  obtain ⟨hm, ha⟩ := List.mem_filter.mp hm
  have hl := hv.length_steps layer hm
  rw [← hl]
  exact Layer.depth_text (hl.trans he) hw (hs layer hm ha)

theorem layersOfText_restText {stepCount : Nat} (h : wholeBars stepCount = true) :
    layersOfText restText stepCount =
      [{ sound := "bd", steps := silence stepCount, muted := false }] := by
  obtain ⟨width, _, rfl⟩ := beats_of_wholeBars h
  have hv : voices restText = [restText] := by decide
  have hn : soundName restText = "bd" := by decide
  have hr : Token.read restText = .sequence (List.replicate beatsPerBar .rest) := by
    have hs := @Token.read_sequence (List.replicate beatsPerBar ['~']) (by decide)
      (fun text ht => (List.eq_of_mem_replicate ht) ▸ elementText_tilde)
      (fun text ht => (List.eq_of_mem_replicate (List.mem_of_mem_getLast? ht)) ▸
        not_endsInCount_concat [] (by decide))
    rw [List.map_replicate, Token.read_rest] at hs
    exact hs
  have hs := Token.subdivide_sequence_mul (List.replicate beatsPerBar .rest) width
  rw [List.length_replicate] at hs
  rw [layersOfText, hv, List.map_singleton, Layer.ofText, hn, stepsOfText, hr, Token.steps,
    Int.toNat_natCast, Token.expand_eq_subdivide, hs, List.flatMap_replicate]
  simp only [Token.subdivide, silence, List.flatten_replicate_replicate]

/-- A grid comes back from its text: its audible layers in order, or one silent row. -/
theorem Grid.layersOfText_text {grid : Grid} (hv : grid.Valid)
    (hp : ∀ layer ∈ grid.layers, layer.audible = true → PlainSound layer.sound.toList) :
    let heard := grid.layers.filter Layer.audible
    (heard ≠ [] → layersOfText grid.text grid.stepCount = heard ∧
      ∀ layer ∈ heard, layer.muted = false ∧ layer.steps.length = grid.stepCount) ∧
    (heard = [] → layersOfText grid.text grid.stepCount =
      [{ sound := "bd", steps := silence grid.stepCount, muted := false }]) := by
  intro heard
  obtain ⟨width, hw, he⟩ := beats_of_wholeBars hv.wholeBars
  constructor
  · intro hn
    constructor
    · rw [Grid.layersOfText_eq_flatMap hv hn fun layer hm ha => (hp layer hm ha).toSoundWord]
      have hs : ∀ layer ∈ heard,
          layersOfText (layer.text grid.stepCount) grid.stepCount = [layer] := by
        intro layer hm
        obtain ⟨hm, ha⟩ := List.mem_filter.mp hm
        have hl := hv.length_steps layer hm
        have hs := hp layer hm ha
        rw [← hl]
        exact Layer.layersOfText_text_of_shielded (hl.trans he) hw ha hs.toSoundWord
          (Layer.shielded_tree hs.not_comma)
      rw [List.flatMap_congr hs, List.flatMap_singleton']
    · intro layer hm
      obtain ⟨hm, ha⟩ := List.mem_filter.mp hm
      simp only [Layer.audible, Bool.and_eq_true, Bool.not_eq_true'] at ha
      exact ⟨ha.1, hv.length_steps layer hm⟩
  · intro hn
    rw [Grid.text_of_silent hn]
    exact layersOfText_restText hv.wholeBars

theorem Grid.layersOfText_text_three :
    let kick : Layer := { sound := "bd", steps := pulses 16 4 }
    let clap : Layer := { sound := "cp*", steps := onset 16 }
    let hat : Layer := { sound := "h~h", steps := silence 6 ++ onset 10, muted := true }
    let snare : Layer := { sound := "sn:2", steps := silence 6 ++ onset 10 }
    let grid : Grid := { layers := [kick, hat, clap, snare], stepCount := 16 }
    grid.Valid ∧
      (∀ layer ∈ grid.layers, layer.audible = true → PlainSound layer.sound.toList) ∧
      grid.text = "bd*4, cp* ~ ~ ~, ~ [~ ~ sn:2 ~] ~ ~".toList ∧
      layersOfText grid.text 16 = [kick, clap, snare] := by
  intro kick clap hat snare grid
  have hv : grid.Valid := ⟨by decide, by decide⟩
  have hp : ∀ layer ∈ grid.layers, layer.audible = true → PlainSound layer.sound.toList := by
    have hs : ∀ layer ∈ [kick, clap, snare], PlainSound layer.sound.toList := by
      have hk : PlainSound "bd".toList := ⟨by decide, by decide⟩
      have hc : PlainSound "cp*".toList := ⟨by decide, by decide⟩
      have hn : PlainSound "sn:2".toList := ⟨by decide, by decide⟩
      exact List.forall_mem_cons.mpr ⟨hk, List.forall_mem_cons.mpr ⟨hc,
        List.forall_mem_singleton.mpr hn⟩⟩
    intro layer hm ha
    have hf : grid.layers.filter Layer.audible = [kick, clap, snare] := by decide
    exact hs layer (hf ▸ List.mem_filter.mpr ⟨hm, ha⟩)
  exact ⟨hv, hp, by decide, ((Grid.layersOfText_text hv hp).1 (by decide)).1⟩

end StepSequencer
