import StepSequencer.Proofs.GridText

/-! A layer is written in the shortest way, as its sound and a count, wherever a count can stand for
its hits. -/

namespace StepSequencer

/-- The text of a sound that is played several times. -/
def shorthand (sound : String) (count : Nat) : List Char :=
  sound.toList ++ '*' :: (toString count).toList

theorem shorthand_inj {sound : String} {count other : Nat}
    (h : shorthand sound count = shorthand sound other) : count = other := by
  have ht := (List.cons.inj (List.append_cancel_left h)).2
  rw [← numberOfDigits_toString_nat count, ht, numberOfDigits_toString_nat]

theorem read_shorthand {sound : String} (h : PlainWord sound.toList) (count : Nat) :
    Token.read (shorthand sound count) = .repeated (.atomic sound) count := by
  have hr := Token.read_repeated h.elementText.trimmed (Int.natCast_nonneg count)
  rw [Token.read_word h, String.ofList_toList] at hr
  exact hr

/-- A sound that is played more often than there are steps sounds in each of them. -/
theorem stepsOfText_shorthand {sound : String} (h : PlainWord sound.toList) {count : Nat}
    (hc : 0 < count) (width : Nat) :
    stepsOfText (shorthand sound count) width = pulses width (min count width) := by
  rw [stepsOfText, read_shorthand h, Token.steps, Int.toNat_natCast, Token.expand_eq_subdivide,
    Token.subdivide_repeated _ _ (by omega), Int.toNat_natCast]
  rcases Nat.le_total count width with hl | hl
  · rw [Nat.min_eq_left hl, pulses_eq_flatMap hc hl]
    rfl
  · rw [Nat.min_eq_right hl, Token.flatMap_turns _ width hc hl]
    rcases Nat.eq_zero_or_pos width with rfl | hw
    · rfl
    · have ht := Token.flatMap_turns (.atomic sound) width hw (Nat.le_refl width)
      rw [pulses_eq_flatMap hw (Nat.le_refl width), ← ht]
      rfl

namespace Layer

variable {layer : Layer} {count width : Nat}

theorem text_of_even (h : layer.even = true) :
    layer.text layer.steps.length = shorthand layer.sound layer.hits.length := by
  rw [even] at h
  rw [text, if_pos h]
  rfl

/-- The two other spellings are read as sequences. -/
theorem even_of_text (hl : layer.steps.length = beatsPerBar * width) (hw : 0 < width)
    (h : PlainWord layer.sound.toList)
    (ht : layer.text layer.steps.length = shorthand layer.sound count) : layer.even = true := by
  by_contra hn
  have hr := read_spell_tree h
  rw [spell_tree hl hw, ht, read_shorthand h, tree, if_neg hn] at hr
  cases hr

theorem even_of_stepsOfText (h : PlainWord layer.sound.toList) (hn : 2 ≤ layer.steps.length)
    (hc : 2 ≤ count)
    (ht : stepsOfText (shorthand layer.sound count) layer.steps.length = layer.steps) :
    layer.even = true := by
  rw [stepsOfText_shorthand h (by omega)] at ht
  obtain ⟨hhits, he⟩ := evenlySpaced_of_pulses (by omega) (Nat.min_le_right ..) ht.symm
  rw [even, he, hhits, Bool.and_true, decide_eq_true_eq]
  exact Nat.le_min.mpr ⟨hc, hn⟩

theorem count_of_text (hl : layer.steps.length = beatsPerBar * width) (hw : 0 < width)
    (h : SoundWord layer.sound.toList) (ha : layer.steps.any id = true)
    (ht : layer.text layer.steps.length = shorthand layer.sound count) :
    count = layer.hits.length ∧ 2 ≤ count ∧ count ≤ layer.steps.length ∧
      stepsOfText (shorthand layer.sound count) layer.steps.length = layer.steps := by
  have he := even_of_text hl hw h.plainWord ht
  obtain rfl := shorthand_inj (ht.symm.trans (text_of_even he))
  have hsteps := congrArg Layer.steps (ofText_text hl ha h)
  rw [even, Bool.and_eq_true, decide_eq_true_eq] at he
  exact ⟨rfl, he.1, layer.length_hits_le, ht ▸ hsteps⟩

end Layer

/-- A layer is written as its sound and a count just where there is a count, however large, that has
the sound fill the steps of the layer. The count that is written is that of the hits. -/
theorem shorthand_iff {layer : Layer} {stepCount : Nat} (hs : PlainSound layer.sound.toList)
    (hw : wholeBars stepCount = true) (hl : layer.steps.length = stepCount)
    (ha : layer.steps.any id = true) :
    ((∃ count, layer.text stepCount = shorthand layer.sound count) ↔
      ∃ count, 2 ≤ count ∧ stepsOfText (shorthand layer.sound count) stepCount = layer.steps) ∧
    ∀ count, layer.text stepCount = shorthand layer.sound count →
      count = layer.hits.length ∧ 2 ≤ count ∧ count ≤ stepCount ∧
        stepsOfText (shorthand layer.sound count) stepCount = layer.steps := by
  subst hl
  obtain ⟨width, hwidth, hbeats⟩ := beats_of_wholeBars hw
  refine ⟨⟨?_, ?_⟩, fun count => Layer.count_of_text hbeats hwidth hs.toSoundWord ha⟩
  · rintro ⟨count, ht⟩
    obtain ⟨-, hc, -, hsteps⟩ := Layer.count_of_text hbeats hwidth hs.toSoundWord ha ht
    exact ⟨count, hc, hsteps⟩
  · rintro ⟨count, hc, ht⟩
    have hn : 2 ≤ layer.steps.length := by
      rw [hbeats, beatsPerBar]
      omega
    exact ⟨_, Layer.text_of_even (Layer.even_of_stepsOfText hs.plainWord hn hc ht)⟩

/-- A sound that ends in an asterisk, played far more often than there are steps. -/
theorem shorthand_iff_beyond :
    let layer : Layer := { sound := "a*", steps := List.replicate 16 true, muted := true }
    PlainSound layer.sound.toList ∧ stepsOfText (shorthand layer.sound 1000) 16 = layer.steps ∧
      layer.text 16 = shorthand layer.sound 16 := by
  intro layer
  have hs : PlainSound layer.sound.toList := ⟨by decide, by decide⟩
  have ht : stepsOfText (shorthand layer.sound 1000) 16 = layer.steps :=
    (stepsOfText_shorthand hs.plainWord (by decide) 16).trans (by decide)
  obtain ⟨hiff, hcount⟩ := shorthand_iff hs (show wholeBars 16 = true by decide) rfl (by decide)
  obtain ⟨count, hc⟩ := hiff.mpr ⟨1000, by decide, ht⟩
  obtain rfl : count = 16 := (hcount count hc).1.trans (by decide)
  exact ⟨hs, ht, hc⟩

end StepSequencer
