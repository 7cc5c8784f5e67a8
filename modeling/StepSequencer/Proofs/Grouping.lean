import StepSequencer.Pattern.Expansion
import StepSequencer.Proofs.SoundName
import Mathlib.Data.List.Infix

/-! Square brackets are grouping alone, around just the texts whose brackets are level. -/

namespace StepSequencer

/-- Brackets around a pattern change none of its steps. -/
theorem stepsOfText_enclose {inner : List Char} (h : Balanced inner) (count : Int) :
    stepsOfText ('[' :: inner ++ [']']) count = stepsOfText inner count := by
  rw [stepsOfText, Token.read_bracketed h]
  rfl

theorem soundName_enclose (inner : List Char) :
    soundName ('[' :: inner ++ [']']) = soundName inner := by
  rw [soundName_eq, soundName_eq, soundWords_enclose inner (by decide) (by decide)]

/-- Brackets around a text make one group just when the text closes as many brackets as it opens,
none before it is opened, whatever their kinds. The group has the steps and the sound of the text,
also where the text ends in a count. -/
theorem grouping_of_level (text : List Char) :
    let group := '[' :: text ++ [']']
    let level := (∀ front, front <+: text → closed front ≤ opened front) ∧
      opened text = closed text
    (enclosed '[' ']' group = true ↔ level) ∧
      (level → (∀ steps, stepsOfText group steps = stepsOfText text steps) ∧
        soundName group = soundName text) := by
  refine ⟨(enclosed_iff_balanced (by decide) (by decide)).trans balanced_iff, fun h => ?_⟩
  exact ⟨stepsOfText_enclose (balanced_iff.mpr h), soundName_enclose text⟩

/-- The brackets that close are not of the kinds that open. -/
theorem grouping_of_level_mixed :
    let text := " <a [b\x7d> \x7b~ c]*3 ".toList
    ((∀ front, front <+: text → closed front ≤ opened front) ∧ opened text = closed text) ∧
      enclosed '[' ']' ('[' :: text ++ [']']) = true ∧
      (∀ steps, stepsOfText ('[' :: text ++ [']']) steps = stepsOfText text steps) ∧
      soundName ('[' :: text ++ [']']) = soundName text := by
  intro text
  have hf : ∀ front ∈ text.inits, closed front ≤ opened front := by decide
  have hl : (∀ front, front <+: text → closed front ≤ opened front) ∧
      opened text = closed text :=
    ⟨fun front hp => hf front ((List.mem_inits front text).mpr hp), by decide⟩
  obtain ⟨he, hg⟩ := grouping_of_level text
  exact ⟨hl, he.mpr hl, hg hl⟩

end StepSequencer
