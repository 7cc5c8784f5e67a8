import StepSequencer.Proofs.Grouping
import StepSequencer.Proofs.Unbroken

/-! What becomes of a pattern that is parsed, written out again and parsed once more. A sound may
take commas from inside brackets, and they end a voice where the sound is written outside of them.
-/

namespace StepSequencer

theorem length_le_flatMap {α : Type} {f : α → List α} {items : List α}
    (hn : ∀ item ∈ items, f item ≠ []) : items.length ≤ (items.flatMap f).length := by
  induction items with
  | nil => exact Nat.le_refl _
  | cons first more ih =>
    have hf := List.length_pos_iff.mpr (hn first List.mem_cons_self)
    have hm := ih fun item hi => hn item (List.mem_cons_of_mem _ hi)
    rw [List.flatMap_cons, List.length_append, List.length_cons]
    omega

/-- Where each item gives something, the items come back together only if each comes back alone. -/
theorem eq_singleton_of_flatMap {α : Type} {f : α → List α} {items : List α}
    (hn : ∀ item ∈ items, f item ≠ []) (h : items.flatMap f = items) :
    ∀ item ∈ items, f item = [item] := by
  induction items with
  | nil => simp
  | cons first more ih =>
    have hm : ∀ item ∈ more, f item ≠ [] := fun item hi => hn item (List.mem_cons_of_mem _ hi)
    obtain ⟨head, tail, he⟩ := List.exists_cons_of_ne_nil (hn first List.mem_cons_self)
    rw [List.flatMap_cons, he, List.cons_append, List.cons.injEq] at h
    have hl := length_le_flatMap hm
    have ht : tail = [] := by
      have hx := congrArg List.length h.2
      rw [List.length_append] at hx
      exact List.eq_nil_of_length_eq_zero (by omega)
    rw [ht, List.nil_append] at h
    exact List.forall_mem_cons.mpr ⟨by rw [he, h.1, ht], ih hm h.2⟩

theorem mem_layersOfText {text : List Char} {stepCount : Nat} {layer : Layer}
    (h : layer ∈ layersOfText text stepCount) :
    layer.steps.length = stepCount ∧ layer.muted = false ∧ SoundWord layer.sound.toList := by
  obtain ⟨voice, _, rfl⟩ := List.mem_map.mp h
  exact ⟨Token.length_expand _ _, rfl, soundWord_soundName voice⟩

theorem Grid.make_layersOfText (text : List Char) {stepCount : Nat}
    (hw : wholeBars stepCount = true) :
    Grid.make (layersOfText text stepCount) stepCount =
      .ok { layers := layersOfText text stepCount, stepCount } := by
  have hf : (layersOfText text stepCount).find? (·.steps.length != stepCount) = none :=
    List.find?_eq_none.mpr fun layer hm => by simp [(mem_layersOfText hm).1]
  simp [Grid.make, hw, hf]

/-- A pattern that is parsed comes back from the text of its grid just where the commas in the
sounds of its rows do no harm. -/
theorem Grid.regenerates_iff (text : List Char) {stepCount : Nat}
    (hw : wholeBars stepCount = true)
    (hh : ∃ layer ∈ layersOfText text stepCount, layer.steps.any id = true) :
    ∃ grid, Grid.make (layersOfText text stepCount) stepCount = .ok grid ∧
      (layersOfText grid.text stepCount =
          (layersOfText text stepCount).filter (·.steps.any id) ↔
        ∀ layer ∈ layersOfText text stepCount, layer.steps.any id = true → layer.Unbroken) := by
  refine ⟨_, Grid.make_layersOfText text hw, ?_⟩
  obtain ⟨width, hwp, hn⟩ := beats_of_wholeBars hw
  let grid : Grid := { layers := layersOfText text stepCount, stepCount }
  let heard := (layersOfText text stepCount).filter (·.steps.any id)
  have hf : grid.layers.filter Layer.audible = heard := by
    refine List.filter_congr fun layer hm => ?_
    simp [Layer.audible, (mem_layersOfText hm).2.1]
  have hne : heard ≠ [] := by
    obtain ⟨layer, hm, ha⟩ := hh
    exact List.ne_nil_of_mem (List.mem_filter.mpr ⟨hm, ha⟩)
  have hv : grid.Valid := ⟨hw, fun layer hm => (mem_layersOfText hm).1⟩
  have ht : layersOfText grid.text stepCount =
      heard.flatMap fun layer => layersOfText (layer.text stepCount) stepCount := by
    rw [← hf]
    exact Grid.layersOfText_eq_flatMap hv (hf ▸ hne)
      fun layer hm _ => (mem_layersOfText hm).2.2
  change layersOfText grid.text stepCount = heard ↔ _
  rw [ht]
  constructor
  · intro h layer hm ha
    have hx : ∀ layer ∈ heard, layersOfText (layer.text stepCount) stepCount ≠ [] := by
      intro layer hm
      obtain ⟨hl, _, hs⟩ := mem_layersOfText (List.mem_of_mem_filter hm)
      have hz := Layer.voices_text_ne_nil (hl.trans hn) hwp hs
      rw [hl] at hz
      simpa [layersOfText] using hz
    have hr := eq_singleton_of_flatMap hx h layer (List.mem_filter.mpr ⟨hm, ha⟩)
    obtain ⟨hl, _, hs⟩ := mem_layersOfText hm
    rw [← hl] at hr
    exact Layer.unbroken_of_layersOfText_text (hl.trans hn) hwp hs hr
  · intro h
    have hr : ∀ layer ∈ heard, layersOfText (layer.text stepCount) stepCount = [layer] := by
      intro layer hm
      obtain ⟨hm, ha⟩ := List.mem_filter.mp hm
      obtain ⟨hl, hmu, hs⟩ := mem_layersOfText hm
      have haud : layer.audible = true := by simp [Layer.audible, hmu, ha]
      have hx := Layer.layersOfText_text_of_unbroken (hl.trans hn) hwp haud hs (h layer hm ha)
      rwa [hl] at hx
    rw [List.flatMap_congr hr, List.flatMap_singleton']

/-- A comma that ends the sound is lost from the last beat, but not from the group before it. -/
theorem Grid.regenerates_trailing :
    let row : Layer := { sound := "a,", steps := silence 9 ++ onset 3 ++ onset 4 }
    let text := "[~ ~ [~ a, ~ ~] a,]".toList
    wholeBars 16 = true ∧ layersOfText text 16 = [row] ∧
      ∃ grid, Grid.make (layersOfText text 16) 16 = .ok grid ∧
        layersOfText grid.text 16 = [row] := by
  intro row text
  have hp : SoundWord row.sound.toList := by decide
  have hw := wellFormed_row hp.plainWord (show 2 ≤ (beatsOf row.steps).length by decide)
  have hs : stepsOfText text 16 = row.steps := by
    have ht : text = '[' :: (Token.sequence ((beatsOf row.steps).map
        (beatToken row.sound))).spell ++ [']'] := by decide
    have hd := @row_subdivide row.sound (beatsOf row.steps) 4 (by decide)
    rw [ht, stepsOfText_enclose hw.balanced_spell, stepsOfText, read_row hp.plainWord (by decide),
      Token.steps, Token.expand_eq_subdivide]
    exact hd.trans (by decide)
  have hr : layersOfText text 16 = [row] := by
    have hv : voices text = [text] := by decide
    have hn : soundName text = row.sound := by decide
    rw [layersOfText, hv, List.map_singleton, Layer.ofText, hn, hs]
  have hu : row.Unbroken := @Layer.Unbroken.trailing row
    [silence 4, silence 4, silence 1 ++ onset 3] (onset 4) ['a'] [','] (by decide) (by decide)
    (by decide) (by decide) (by decide) (by decide) (by decide) (by decide) (by simp)
  obtain ⟨grid, hm, hi⟩ := @Grid.regenerates_iff text 16 (by decide)
    ⟨row, hr ▸ List.mem_cons_self, by decide⟩
  have hf : (layersOfText text 16).filter (·.steps.any id) = [row] := by
    rw [hr]
    decide
  have hk : layersOfText grid.text 16 = (layersOfText text 16).filter (·.steps.any id) :=
    hi.mpr fun layer hl _ => List.mem_singleton.mp (hr ▸ hl) ▸ hu
  exact ⟨by decide, hr, grid, hm, hk.trans hf⟩

/-- A comma is not kept where the sound stands alone: one row comes back as two. -/
theorem Grid.not_regenerated :
    let row : Layer := { sound := "a,b", steps := onset 16 }
    let text := "[a,b]".toList
    wholeBars 16 = true ∧ layersOfText text 16 = [row] ∧
      ∃ grid, Grid.make (layersOfText text 16) 16 = .ok grid ∧
        grid.text = "a,b ~ ~ ~".toList ∧ (layersOfText grid.text 16).length = 2 ∧
        layersOfText grid.text 16 ≠ (layersOfText text 16).filter (·.steps.any id) := by
  intro row text
  have hp : SoundWord row.sound.toList := by decide
  have hr : layersOfText text 16 = [row] := by
    have hv : voices text = [text] := by decide
    have hn : soundName text = row.sound := by decide
    have ht : text = '[' :: row.sound.toList ++ [']'] := by decide
    have hs : stepsOfText text 16 = row.steps := by
      rw [ht, stepsOfText_enclose (balanced_of_weight hp.not_bracket), stepsOfText,
        Token.read_word hp.plainWord]
      decide
    rw [layersOfText, hv, List.map_singleton, Layer.ofText, hn, hs]
  let grid : Grid := { layers := [row], stepCount := 16 }
  have hm : Grid.make (layersOfText text 16) 16 = .ok grid := by
    rw [hr]
    decide
  have hg : grid.text = "a,b ~ ~ ~".toList := by decide
  have hl : (layersOfText grid.text 16).length = 2 := by
    have hv : voices "a,b ~ ~ ~".toList = ["a".toList, "b ~ ~ ~".toList] := by decide
    rw [layersOfText, hg, hv]
    rfl
  refine ⟨by decide, hr, grid, hm, hg, hl, fun he => ?_⟩
  rw [he, hr] at hl
  exact absurd hl (by decide)

end StepSequencer
