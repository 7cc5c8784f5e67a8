import StepSequencer.Proofs.Beats

/-! The text of a layer is what a tree spells, and the layer comes back from it: the same sound and
the same steps. -/

namespace StepSequencer

theorem between_natCast {α : Type} {items : List α} {start stop : Nat}
    (hs : start ≤ items.length) (ht : stop ≤ items.length) :
    between items start stop = (items.drop start).take (stop - start) := by
  have hp : ∀ index : Nat, index ≤ items.length → place items.length index = index := by
    intro index hi
    simp [place, hi]
  rw [between, hp start hs, hp stop ht, List.drop_take]

/-- The hits of the layer are those of its sound played as often. -/
def Layer.even (layer : Layer) : Bool :=
  2 ≤ layer.hits.length && evenlySpaced layer.hits layer.steps.length

/-- The tree of a layer: the sound played several times, or its four beats in turn. -/
def Layer.tree (layer : Layer) : Token :=
  if layer.even then .repeated (.atomic layer.sound) layer.hits.length
  else .sequence ((beatsOf layer.steps).map (beatToken layer.sound))

section Row

variable {sound : String} {beats : List (List Bool)}

theorem wellFormed_row (h : PlainWord sound.toList) (hn : 2 ≤ beats.length) :
    (Token.sequence (beats.map (beatToken sound))).WellFormed :=
  Token.WellFormed.sequence_map (wellFormed_beatToken h) (beatToken_element sound) hn

theorem spell_row (sound : String) (beats : List (List Bool)) :
    (Token.sequence (beats.map (beatToken sound))).spell =
      [' '].intercalate (beats.map (beatText sound.toList)) := by
  simp only [Token.spell, Token.spellAll_eq, List.map_map, Function.comp_def, spell_beatToken]

theorem read_row (h : PlainWord sound.toList) (hn : 2 ≤ beats.length) :
    Token.read (Token.sequence (beats.map (beatToken sound))).spell =
      .sequence (beats.map (beatToken sound)) :=
  Token.read_spell_sequence (wellFormed_row h hn)
    (List.forall_mem_map.mpr fun beat _ => read_beatToken h beat)

theorem row_subdivide {width : Nat} (h : ∀ beat ∈ beats, beat.length = width) :
    (Token.sequence (beats.map (beatToken sound))).subdivide (beats.length * width) =
      beats.flatten := by
  have hs := Token.subdivide_sequence_mul (beats.map (beatToken sound)) width
  rw [List.length_map, List.flatMap_map] at hs
  rw [hs, ← List.flatMap_id]
  refine List.flatMap_congr fun beat hb => ?_
  rw [← h beat hb]
  exact beatToken_subdivide sound beat

end Row

theorem joined_beats {layer : Layer} {width : Nat}
    (hl : layer.steps.length = beatsPerBar * width) :
    joined [' '] ((List.range beatsPerBar).map fun (beat : Nat) =>
      beatText layer.sound.toList (between layer.steps
        (beat * (layer.steps.length : Int).fdiv beatsPerBar)
        ((beat + 1) * (layer.steps.length : Int).fdiv beatsPerBar))) =
      (Token.sequence ((beatsOf layer.steps).map (beatToken layer.sound))).spell := by
  have hd : layer.steps.length / beatsPerBar = width := by
    rw [hl, Nat.mul_div_cancel_left _ (by decide)]
  have hf : (layer.steps.length : Int).fdiv beatsPerBar = (width : Nat) := by
    rw [Int.fdiv_eq_ediv_of_nonneg _ (by omega), ← hd]
    rfl
  rw [spell_row, beatsOf, List.map_map, joined, hd, hf]
  congr 1
  refine List.map_congr_left fun beat hb => ?_
  have hw : (beat + 1) * width ≤ layer.steps.length :=
    hl ▸ Nat.mul_le_mul_right width (List.mem_range.mp hb)
  have hb := @between_natCast _ layer.steps (beat * width) ((beat + 1) * width)
    (by rw [Nat.succ_mul] at hw; omega) hw
  push_cast at hb
  rw [hb, Nat.succ_mul, Nat.add_sub_cancel_left]
  rfl

theorem any_silence (width : Nat) : (silence width).any id = false := by
  simp [silence]

theorem lone_onset (width : Nat) : lone (onset (width + 1)) = true := by
  simp [lone, onset, any_silence]

theorem beatsOf_onset (width : Nat) :
    beatsOf (onset (beatsPerBar * (width + 1))) =
      onset (width + 1) :: List.replicate (beatsPerBar - 1) (silence (width + 1)) := by
  have ho : onset (beatsPerBar * (width + 1)) =
      onset (width + 1) ++ silence ((beatsPerBar - 1) * (width + 1)) := by
    have he : beatsPerBar * (width + 1) = width + (beatsPerBar - 1) * (width + 1) + 1 := by
      simp only [beatsPerBar]
      omega
    rw [he, onset, onset, silence, silence, silence, List.cons_append,
      List.replicate_append_replicate]
  have hd : beatsPerBar * (width + 1) / beatsPerBar = width + 1 :=
    Nat.mul_div_cancel_left _ (by decide)
  have hr : List.range beatsPerBar = 0 :: (List.range (beatsPerBar - 1)).map (· + 1) :=
    List.range_succ_eq_map
  rw [beatsOf, length_onset, hd, ho, hr, List.map_cons, List.map_map]
  congr 1
  · rw [Nat.zero_mul, List.drop_zero, List.take_left' (length_onset _)]
  · refine List.eq_replicate_iff.mpr ⟨by simp, List.forall_mem_map.mpr fun beat hb => ?_⟩
    have hm : (beat + 1) * (width + 1) ≤ (beatsPerBar - 1) * (width + 1) :=
      Nat.mul_le_mul_right _ (List.mem_range.mp hb)
    have hs : (beat + 1) * (width + 1) = (onset (width + 1)).length + beat * (width + 1) := by
      rw [length_onset, Nat.succ_mul, Nat.add_comm]
    rw [Nat.succ_mul] at hm
    rw [Function.comp_apply, hs, List.drop_length_add_append, drop_silence, silence, silence,
      List.take_replicate]
    congr 1
    omega

namespace Layer

variable {layer : Layer} {width : Nat}

theorem spell_tree (hl : layer.steps.length = beatsPerBar * width) (hw : 0 < width) :
    layer.tree.spell = layer.text layer.steps.length := by
  rw [Layer.tree, Layer.even, Layer.text]
  split
  · rfl
  · split
    next h0 =>
      obtain ⟨more, rfl⟩ : ∃ more, width = more + 1 := ⟨_, (Nat.succ_pred_eq_of_pos hw).symm⟩
      have hs := Layer.steps_eq_onset (beq_iff_eq.mp h0)
      rw [hl] at hs
      rw [spell_row, hs, beatsOf_onset, joined, List.map_cons, List.map_replicate,
        beatText_of_lone (lone_onset more), beatText_of_not_any (any_silence _)]
    · exact (joined_beats hl).symm

theorem even_of_lone (hl : layer.steps.length = beatsPerBar * width) (hw : 0 < width)
    (h : ∀ beat ∈ beatsOf layer.steps, lone beat = true) : layer.even = true := by
  obtain ⟨more, rfl⟩ : ∃ more, width = more + 1 := ⟨_, (Nat.succ_pred_eq_of_pos hw).symm⟩
  have hb : beatsOf layer.steps = List.replicate beatsPerBar (onset (more + 1)) := by
    refine List.eq_replicate_iff.mpr ⟨length_beatsOf _, fun beat hm => ?_⟩
    rw [onset_eq_of_lone (h beat hm), length_of_mem_beatsOf hl hm]
  have hs := flatten_beatsOf hl
  rw [hb, ← pulses_mul more (by decide), ← hl] at hs
  have hle : beatsPerBar ≤ layer.steps.length := hl ▸ Nat.le_mul_of_pos_right _ (Nat.succ_pos more)
  obtain ⟨hn, he⟩ := evenlySpaced_of_pulses (by decide) hle hs.symm
  rw [even, hn, he]
  rfl

theorem wellFormed_tree (h : PlainWord layer.sound.toList) : layer.tree.WellFormed := by
  rw [tree]
  split
  · exact .repeated (.atomic h) (Int.natCast_nonneg _)
  · exact wellFormed_row h (by simp [length_beatsOf, beatsPerBar])

theorem read_spell_tree (h : PlainWord layer.sound.toList) :
    Token.read layer.tree.spell = layer.tree := by
  rw [tree]
  split
  · have hr := Token.read_word h
    rw [String.ofList_toList] at hr
    rw [Token.spell, Token.spell, Token.read_repeated h.elementText.trimmed (Int.natCast_nonneg _),
      hr]
  · exact read_row h (by simp [length_beatsOf, beatsPerBar])

theorem subdivide_tree (hl : layer.steps.length = beatsPerBar * width) :
    layer.tree.subdivide layer.steps.length = layer.steps := by
  rw [tree]
  split
  next he =>
    rw [even, Bool.and_eq_true, decide_eq_true_eq] at he
    have hp : 0 < layer.hits.length := by omega
    rw [Token.subdivide_repeated _ _ (by omega), Int.toNat_natCast]
    exact (pulses_eq_flatMap hp layer.length_hits_le).symm.trans (steps_eq_pulses he.2).symm
  next =>
    have hs := @row_subdivide layer.sound (beatsOf layer.steps) width
      fun beat hb => length_of_mem_beatsOf hl hb
    rw [length_beatsOf, ← hl] at hs
    rw [hs, flatten_beatsOf hl]

theorem sounding_tree (h : SoundWord layer.sound.toList) : layer.tree.Sounding := by
  rw [tree]
  split
  · exact .repeated (.atomic h) (Int.natCast_nonneg _)
  · exact .sequence (List.forall_mem_map.mpr fun beat _ => sounding_beatToken h beat)

theorem leaves_tree {word : List Char} (hw : word ∈ layer.tree.leaves) :
    word = layer.sound.toList ∨ word = ['~'] := by
  rw [tree] at hw
  split at hw
  · exact .inl (List.mem_singleton.mp hw)
  · rw [Token.leaves, Token.leavesAll_eq, List.flatMap_map] at hw
    obtain ⟨beat, _, hb⟩ := List.mem_flatMap.mp hw
    exact leaves_beatToken hb

theorem sound_mem_leaves_tree (hl : layer.steps.length = beatsPerBar * width)
    (ha : layer.steps.any id = true) : layer.sound.toList ∈ layer.tree.leaves := by
  rw [tree]
  split
  · exact List.mem_singleton_self _
  · rw [← flatten_beatsOf hl, List.any_flatten, List.any_eq_true] at ha
    obtain ⟨beat, hb, ho⟩ := ha
    rw [Token.leaves, Token.leavesAll_eq, List.flatMap_map]
    exact List.mem_flatMap.mpr ⟨beat, hb, sound_mem_leaves ho⟩

/-- A layer comes back from its text, with its sound and its steps. -/
theorem ofText_text (hl : layer.steps.length = beatsPerBar * width)
    (ha : layer.steps.any id = true) (h : SoundWord layer.sound.toList) :
    Layer.ofText (layer.text layer.steps.length) layer.steps.length =
      { layer with muted := false } := by
  have hw : 0 < width := by
    rcases Nat.eq_zero_or_pos width with rfl | hw
    · rw [List.eq_nil_of_length_eq_zero hl] at ha
      exact absurd ha (by decide)
    · exact hw
  have hx : soundWords layer.tree.spell = layer.tree.leaves ++ [] := by
    rw [(sounding_tree h).soundWords_spell, List.append_nil]
  have hn : soundName layer.tree.spell = layer.sound := by
    rw [soundName_of_words hx h.not_rest (sound_mem_leaves_tree hl ha), String.ofList_toList]
    intro word hm
    rcases leaves_tree hm with rfl | rfl
    · exact .inl rfl
    · exact .inr (by decide)
  have hs : stepsOfText layer.tree.spell layer.steps.length = layer.steps := by
    rw [stepsOfText, read_spell_tree h.plainWord, Token.steps, Int.toNat_natCast,
      Token.expand_eq_subdivide, subdivide_tree hl]
  rw [← spell_tree hl hw, Layer.ofText, hn, hs]

end Layer

end StepSequencer
