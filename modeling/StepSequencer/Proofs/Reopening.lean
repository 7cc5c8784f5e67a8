import StepSequencer.Proofs.Alignment
import StepSequencer.Proofs.Unbroken

/-! What a session announces opens again as the rows that are heard of its grid, if the grid is not
longer than a pattern is opened on. -/

namespace StepSequencer

namespace Grid

variable {grid : Grid}

theorem stepCountForBars_bars (h : grid.Valid) :
    stepCountForBars grid.bars = min grid.stepCount maxStepCount := by
  obtain ⟨bars, hb⟩ := wholeBars_iff.mp h.wholeBars
  have hbars : grid.bars = bars + 1 := by
    rw [Grid.bars, hb, Nat.mul_div_cancel_left _ (by decide)]
  rw [hbars, hb]
  simp only [stepCountForBars, stepsPerBar, maxStepCount]
  split <;> omega

theorem ofText_of_layers {text : List Char} {bars : Int} {layers : List Layer}
    (h : layersOfText text (stepCountForBars bars) = layers) (hn : layers ≠ []) :
    ofText text bars = { layers, stepCount := stepCountForBars bars } := by
  rw [ofText, h]
  split
  next => contradiction
  next => rfl

/-- The rows that are heard come back where the commas of their sounds do no harm. -/
theorem layersOfText_text_of_unbroken (hv : grid.Valid)
    (hn : grid.layers.filter Layer.audible ≠ [])
    (hs : ∀ layer ∈ grid.layers, layer.audible = true → SoundWord layer.sound.toList)
    (hu : ∀ layer ∈ grid.layers, layer.audible = true → layer.Unbroken) :
    layersOfText grid.text grid.stepCount = grid.layers.filter Layer.audible := by
  obtain ⟨width, hw, he⟩ := beats_of_wholeBars hv.wholeBars
  have hr : ∀ layer ∈ grid.layers.filter Layer.audible,
      layersOfText (layer.text grid.stepCount) grid.stepCount = [layer] := by
    intro layer hm
    obtain ⟨hm, ha⟩ := List.mem_filter.mp hm
    have hl := hv.length_steps layer hm
    rw [← hl]
    exact Layer.layersOfText_text_of_unbroken (hl.trans he) hw ha (hs layer hm ha) (hu layer hm ha)
  rw [layersOfText_eq_flatMap hv hn hs, List.flatMap_congr hr, List.flatMap_singleton']

end Grid

theorem not_counts_beatToken (sound : String) (beat : List Bool) (count : Int) :
    ¬ (beatToken sound beat).Counts count := by
  have hc : ∀ on, ¬ (cellToken sound on).Counts count := by simp [cellToken]
  rw [beatToken]
  split_ifs
  · exact Token.not_counts_rest count
  · exact Token.not_counts_atomic sound count
  · rw [Token.counts_bracketed, Token.counts_sequence]
    rintro ⟨_, hm, h⟩
    obtain ⟨on, -, rfl⟩ := List.mem_map.mp hm
    exact hc on h

/-- The sound of a row is repeated once for each hit at most. -/
theorem Layer.count_le {layer : Layer} {count : Int} (h : layer.tree.Counts count) :
    count ≤ layer.steps.length := by
  rw [Layer.tree] at h
  split at h
  · obtain rfl : count = layer.hits.length := by simpa using h
    exact_mod_cast layer.length_hits_le
  · simp [not_counts_beatToken] at h

namespace Grid

variable {grid : Grid}

/-- What is written of a grid of any size that there is can be read. -/
theorem legible_text (hv : grid.Valid) (hl : grid.stepCount < 10 ^ maxDigits)
    (hn : grid.layers.filter Layer.audible ≠ [])
    (hp : ∀ layer ∈ grid.layers, layer.audible = true → PlainSound layer.sound.toList) :
    Legible (PatternNumerals grid.text) := by
  obtain ⟨width, hw, he⟩ := beats_of_wholeBars hv.wholeBars
  have hs : ∀ layer ∈ grid.layers.filter Layer.audible, layer.tree.WellFormed ∧
      layer.tree.Shielded ∧ layer.text grid.stepCount = layer.tree.spell := by
    intro layer hm
    obtain ⟨hm, ha⟩ := List.mem_filter.mp hm
    have hlen := hv.length_steps layer hm
    have hsound := hp layer hm ha
    refine ⟨Layer.wellFormed_tree hsound.plainWord, Layer.shielded_tree hsound.not_comma, ?_⟩
    rw [← hlen, Layer.spell_tree (hlen.trans he) hw]
  have hd : ∀ text ∈ (grid.layers.filter Layer.audible).map (·.text grid.stepCount),
      depth text = 0 := by
    refine List.forall_mem_map.mpr fun layer hm => ?_
    obtain ⟨hwf, -, ht⟩ := hs layer hm
    exact ht ▸ hwf.balanced_spell.depth_eq
  rintro digits ⟨voice, hvoice, hdigits⟩
  rw [text_of_audible hn, voices_joined hd, List.flatMap_map] at hvoice
  obtain ⟨layer, hm, hvoice⟩ := List.mem_flatMap.mp hvoice
  obtain ⟨hwf, hshield, ht⟩ := hs layer hm
  rw [ht] at hvoice
  obtain ⟨count, hc, rfl⟩ := (patternNumerals_spell_iff hwf hshield).mp ⟨voice, hvoice, hdigits⟩
  have hlen := hv.length_steps layer (List.mem_of_mem_filter hm)
  refine (Token.length_toString_le_iff (hwf.count_nonneg hc)).mpr ?_
  have hle := Layer.count_le hc
  have hlt : (grid.stepCount : Int) < 10 ^ maxDigits := by exact_mod_cast hl
  omega

/-- The sounds of a pattern do not depend on the number of steps. -/
theorem map_sound_layersOfText (text : List Char) (stepCount other : Int) :
    (layersOfText text stepCount).map (fun layer => (layer.sound, layer.muted)) =
      (layersOfText text other).map fun layer => (layer.sound, layer.muted) := by
  simp [layersOfText, Layer.ofText]

end Grid

namespace Session

/-- A grid with rows to be heard, all of plain sounds, opens again from its text and its bars with
just these rows, if it is not longer than two bars. Of a longer one the same sounds come back in
order, but it is cut down to two bars. -/
theorem reopens {stirred : Bool} {session : Session} (h : Reached stirred session) {grid : Grid}
    (hg : session.grid = some grid) (hn : grid.layers.filter Layer.audible ≠ [])
    (hp : ∀ layer ∈ grid.layers, layer.audible = true → PlainSound layer.sound.toList) :
    (grid.stepCount ≤ maxStepCount → Grid.tryOfText grid.text grid.bars =
      .ok { layers := grid.layers.filter Layer.audible, stepCount := grid.stepCount }) ∧
    (maxStepCount < grid.stepCount → grid.stepCount < 10 ^ maxDigits → ∃ reopened,
      Grid.tryOfText grid.text grid.bars = .ok reopened ∧ reopened.stepCount = maxStepCount ∧
        reopened.layers.map (fun layer => (layer.sound, layer.muted)) =
          (grid.layers.filter Layer.audible).map fun layer => (layer.sound, layer.muted)) := by
  have hv := h.aligned.valid grid hg
  have hc := Grid.stepCountForBars_bars hv
  have hr := Grid.layersOfText_text_of_unbroken hv hn
    (fun layer hm ha => (hp layer hm ha).toSoundWord)
    fun layer hm ha => .plain (hp layer hm ha).not_comma
  have hopen := Grid.reads_tryOfText grid.text grid.bars
  constructor
  · intro hl
    rw [Nat.min_eq_left hl] at hc
    have hs : maxStepCount < 10 ^ maxDigits :=
      Nat.lt_of_lt_of_le (show maxStepCount < 10 ^ 2 by decide)
        (Nat.pow_le_pow_right (by decide) (by decide))
    rw [hopen.eq_ok (Grid.legible_text hv (Nat.lt_of_le_of_lt hl hs) hn hp),
      Grid.ofText_of_layers (hc ▸ hr) hn, hc]
  · intro hl hs
    rw [Nat.min_eq_right (Nat.le_of_lt hl)] at hc
    have hm := Grid.map_sound_layersOfText grid.text (stepCountForBars grid.bars) grid.stepCount
    rw [hr] at hm
    refine ⟨_, hopen.eq_ok (Grid.legible_text hv hs hn hp), hc, ?_⟩
    rw [Grid.ofText_of_layers rfl fun hnil => hn ?_]
    · exact hm
    · rw [hnil] at hm
      exact List.map_eq_nil_iff.mp hm.symm

/-- The grid was longer and was cut to two bars again. One of its rows is muted. -/
theorem reopens_edited :
    let closed : Session := {}
    let opened := (closed.openText [] 2).1
    let longer := ((opened.edit false (.resize 64)).1.edit false (.toggleStep 2 30)).1
    let muted := ((longer.edit false (.toggleStep 1 3)).1.edit false (.toggleMuted 1)).1
    let session := ((muted.edit false (.toggleStep 0 0)).1.edit false (.resize 32)).1
    let kick : Layer := { sound := "bd", steps := onset 32 }
    let clap : Layer := { sound := "cp", steps := silence 3 ++ onset 29, muted := true }
    let hat : Layer := { sound := "hh", steps := silence 30 ++ onset 2 }
    let grid : Grid := { layers := [kick, clap, hat], stepCount := 32 }
    session.grid = some grid ∧
      grid.text = "bd ~ ~ ~, ~ ~ ~ [~ ~ ~ ~ ~ ~ hh ~]".toList ∧ grid.bars = 2 ∧
      Grid.tryOfText grid.text grid.bars = .ok { layers := [kick, hat], stepCount := 32 } := by
  intro closed opened longer muted session kick clap hat grid
  have hmade : make {} none 0.0 true [] = .ok closed := by rfl
  have hopened : Reached false opened := (Reached.make hmade).openText [] 2
  have hlonger : Reached true longer :=
    (hopened.edit false (by decide)).edit false (by decide)
  have hmuted : Reached true muted :=
    (hlonger.edit false (by decide)).edit false (by decide)
  have h : Reached true session :=
    (hmuted.edit false (by decide)).edit false (by decide)
  have hg : session.grid = some grid := by decide
  have hheard : grid.layers.filter Layer.audible = [kick, hat] := by decide
  have hp : ∀ layer ∈ grid.layers, layer.audible = true → PlainSound layer.sound.toList := by
    have hk : PlainSound "bd".toList := ⟨by decide, by decide⟩
    have hh : PlainSound "hh".toList := ⟨by decide, by decide⟩
    intro layer hm ha
    have hs : ∀ layer ∈ [kick, hat], PlainSound layer.sound.toList :=
      List.forall_mem_cons.mpr ⟨hk, List.forall_mem_singleton.mpr hh⟩
    exact hs layer (hheard ▸ List.mem_filter.mpr ⟨hm, ha⟩)
  have hr := (reopens h hg (hheard ▸ List.cons_ne_nil _ _) hp).1 (by decide)
  exact ⟨hg, by decide, by decide, hheard ▸ hr⟩

/-- A grid of three bars opens again as one of two. -/
theorem not_reopened :
    let closed : Session := {}
    let opened := (closed.openText [] 1).1
    let session := ((opened.edit false (.toggleStep 0 0)).1.edit false (.resize 48)).1
    let kick : Layer := { sound := "bd", steps := onset 48 }
    let empty : List Layer := ["cp", "hh"].map fun sound => { sound, steps := silence 48 }
    let grid : Grid := { layers := kick :: empty, stepCount := 48 }
    Reached true session ∧ session.grid = some grid ∧
      grid.layers.filter Layer.audible = [kick] ∧ PlainSound kick.sound.toList ∧
      session.transport.announced.head? = some (grid.text, grid.bars) ∧
      ∃ reopened, Grid.tryOfText grid.text grid.bars = .ok reopened ∧
        reopened.stepCount = 32 := by
  intro closed opened session kick empty grid
  have hmade : make {} none 0.0 true [] = .ok closed := by rfl
  have hopened : Reached false opened := (Reached.make hmade).openText [] 1
  have h : Reached true session :=
    (hopened.edit false (by decide)).edit false (by decide)
  have hp : PlainSound "bd".toList := ⟨by decide, by decide⟩
  have hl := legible_pattern_of_length_le (show grid.text.length ≤ maxDigits by decide)
  exact ⟨h, by decide, by decide, hp, by decide, _,
    (Grid.reads_tryOfText grid.text grid.bars).eq_ok hl, by decide⟩

end Session

end StepSequencer
