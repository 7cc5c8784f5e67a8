import StepSequencer.Proofs.Hits
import StepSequencer.Proofs.Leaves

/-! The beats of a row, each written as a rest, a word or a group of steps. Read back, each beat
fills its part of the row as it did. -/

namespace StepSequencer

/-- The tree of one step: the word on a hit, a rest otherwise. -/
def cellToken (sound : String) (on : Bool) : Token := if on then .atomic sound else .rest

/-- A beat with one hit, on its first step. -/
def lone (beat : List Bool) : Bool := beat.head? == some true && !beat.tail.any id

/-- The tree of a beat. -/
def beatToken (sound : String) (beat : List Bool) : Token :=
  if !beat.any id then .rest
  else if lone beat then .atomic sound
  else .bracketed (.sequence (beat.map (cellToken sound)))

/-- The beats of a row, all of one width. -/
def beatsOf (steps : List Bool) : List (List Bool) :=
  let width := steps.length / beatsPerBar
  (List.range beatsPerBar).map fun beat => (steps.drop (beat * width)).take width

theorem silence_eq_of_not_any {beat : List Bool} (h : beat.any id = false) :
    beat = silence beat.length := by
  rw [List.any_eq_false] at h
  exact List.eq_replicate_iff.mpr ⟨rfl, fun on ho => Bool.eq_false_iff.mpr (h on ho)⟩

theorem onset_eq_of_lone {beat : List Bool} (h : lone beat = true) : beat = onset beat.length := by
  simp only [lone, Bool.and_eq_true, beq_iff_eq, Bool.not_eq_true'] at h
  cases beat with
  | nil => simp at h
  | cons first more =>
    obtain rfl : first = true := by simpa using h.1
    exact congrArg (true :: ·) (silence_eq_of_not_any h.2)

theorem any_of_lone {beat : List Bool} (h : lone beat = true) : beat.any id = true := by
  rw [onset_eq_of_lone h]
  cases beat with
  | nil => simp [lone] at h
  | cons => rfl

theorem two_le_length_of_group {beat : List Bool} (ha : beat.any id = true)
    (hl : lone beat = false) : 2 ≤ beat.length := by
  match beat with
  | [] => simp at ha
  | [on] =>
    obtain rfl : on = true := by simpa using ha
    simp [lone] at hl
  | _ :: _ :: _ => simp

section Cells

variable {sound : String}

theorem cellToken_subdivide (on : Bool) : (cellToken sound on).subdivide 1 = [on] := by
  cases on <;> rfl

theorem spell_cellToken (on : Bool) :
    (cellToken sound on).spell = if on then sound.toList else ['~'] := by
  cases on <;> rfl

theorem cellToken_element (on : Bool) :
    (cellToken sound on).Element ∧ ¬ (cellToken sound on).Counted := by
  cases on <;> exact ⟨trivial, id⟩

theorem read_cellToken (h : PlainWord sound.toList) (on : Bool) :
    Token.read (cellToken sound on).spell = cellToken sound on := by
  cases on with
  | false => exact Token.read_rest
  | true =>
    have hr := Token.read_word h
    rwa [String.ofList_toList] at hr

theorem wellFormed_cells {beat : List Bool} (h : PlainWord sound.toList) (hl : 2 ≤ beat.length) :
    (Token.sequence (beat.map (cellToken sound))).WellFormed := by
  refine Token.WellFormed.sequence_map (fun on => ?_) cellToken_element hl
  cases on
  · exact .rest
  · exact .atomic h

end Cells

section Beat

variable {sound : String} {beat : List Bool}

theorem beatToken_cases (sound : String) (beat : List Bool) :
    (beat.any id = false ∧ beatToken sound beat = .rest) ∨
      (lone beat = true ∧ beatToken sound beat = .atomic sound) ∨
      (beat.any id = true ∧ lone beat = false ∧
        beatToken sound beat = .bracketed (.sequence (beat.map (cellToken sound)))) := by
  rw [beatToken]
  cases ha : beat.any id with
  | false => exact .inl ⟨rfl, rfl⟩
  | true =>
    cases hl : lone beat with
    | true => exact .inr (.inl ⟨rfl, rfl⟩)
    | false => exact .inr (.inr ⟨rfl, rfl, rfl⟩)

theorem spell_beatToken (sound : String) (beat : List Bool) :
    (beatToken sound beat).spell = beatText sound.toList beat := by
  rw [beatToken, beatText]
  split
  · rfl
  · change (if lone beat then _ else _ : Token).spell = if lone beat then _ else _
    split
    · rfl
    · simp only [Token.spell, Token.spellAll_eq, joined, List.map_map, Function.comp_def,
        spell_cellToken]

theorem beatText_of_not_any {sound : List Char} (h : beat.any id = false) :
    beatText sound beat = ['~'] := by
  simp [beatText, h]

theorem beatText_of_lone {sound : List Char} (h : lone beat = true) :
    beatText sound beat = sound := by
  have hl : (beat.head? == some true && !beat.tail.any id) = true := h
  simp [beatText, any_of_lone h, hl]

theorem beatToken_subdivide (sound : String) (beat : List Bool) :
    (beatToken sound beat).subdivide beat.length = beat := by
  rcases beatToken_cases sound beat with ⟨ha, he⟩ | ⟨hl, he⟩ | ⟨_, _, he⟩
  · rw [he]
    exact (silence_eq_of_not_any ha).symm
  · rw [he]
    exact (onset_eq_of_lone hl).symm
  · have hs := Token.subdivide_sequence_mul (beat.map (cellToken sound)) 1
    rw [List.length_map, Nat.mul_one, List.flatMap_map] at hs
    simp only [cellToken_subdivide] at hs
    rw [he, Token.subdivide, hs, List.flatMap_singleton']

theorem beatToken_element (sound : String) (beat : List Bool) :
    (beatToken sound beat).Element ∧ ¬ (beatToken sound beat).Counted := by
  rcases beatToken_cases sound beat with ⟨_, he⟩ | ⟨_, he⟩ | ⟨_, _, he⟩ <;>
    exact he ▸ ⟨trivial, id⟩

theorem wellFormed_beatToken (h : PlainWord sound.toList) (beat : List Bool) :
    (beatToken sound beat).WellFormed := by
  rcases beatToken_cases sound beat with ⟨_, he⟩ | ⟨_, he⟩ | ⟨ha, hl, he⟩
  · exact he ▸ .rest
  · exact he ▸ .atomic h
  · exact he ▸ .bracketed (wellFormed_cells h (two_le_length_of_group ha hl))

theorem read_beatToken (h : PlainWord sound.toList) (beat : List Bool) :
    Token.read (beatToken sound beat).spell = beatToken sound beat := by
  rcases beatToken_cases sound beat with ⟨_, he⟩ | ⟨_, he⟩ | ⟨ha, hl, he⟩
  · rw [he]
    exact Token.read_rest
  · rw [he, Token.spell, Token.read_word h, String.ofList_toList]
  · have hw := wellFormed_cells h (two_le_length_of_group ha hl)
    have hr := Token.read_spell_sequence hw (List.forall_mem_map.mpr fun on _ => read_cellToken h on)
    rw [he, Token.spell, Token.read_bracketed hw.balanced_spell, hr]

theorem sounding_beatToken (h : SoundWord sound.toList) (beat : List Bool) :
    (beatToken sound beat).Sounding := by
  rcases beatToken_cases sound beat with ⟨_, he⟩ | ⟨_, he⟩ | ⟨_, _, he⟩
  · exact he ▸ .rest
  · exact he ▸ .atomic h
  · refine he ▸ .bracketed (.sequence (List.forall_mem_map.mpr fun on _ => ?_))
    cases on
    · exact .rest
    · exact .atomic h

theorem leaves_cellToken (sound : String) (on : Bool) :
    (cellToken sound on).leaves = [if on then sound.toList else ['~']] := by
  cases on <;> rfl

theorem leaves_beatToken {word : List Char} (hw : word ∈ (beatToken sound beat).leaves) :
    word = sound.toList ∨ word = ['~'] := by
  rcases beatToken_cases sound beat with ⟨_, he⟩ | ⟨_, he⟩ | ⟨_, _, he⟩
  · rw [he] at hw
    exact .inr (List.mem_singleton.mp hw)
  · rw [he] at hw
    exact .inl (List.mem_singleton.mp hw)
  · rw [he, Token.leaves, Token.leaves, Token.leavesAll_eq, List.flatMap_map] at hw
    obtain ⟨on, _, hc⟩ := List.mem_flatMap.mp hw
    rw [leaves_cellToken, List.mem_singleton] at hc
    cases on
    · exact .inr hc
    · exact .inl hc

theorem sound_mem_leaves (ha : beat.any id = true) :
    sound.toList ∈ (beatToken sound beat).leaves := by
  rcases beatToken_cases sound beat with ⟨hn, _⟩ | ⟨_, he⟩ | ⟨_, _, he⟩
  · rw [ha] at hn
    exact absurd hn (by decide)
  · rw [he]
    exact List.mem_singleton_self _
  · obtain ⟨on, hm, rfl : on = true⟩ := List.any_eq_true.mp ha
    rw [he, Token.leaves, Token.leaves, Token.leavesAll_eq, List.flatMap_map]
    exact List.mem_flatMap.mpr ⟨true, hm, by simp [leaves_cellToken]⟩

/-- A comma in the sound stands outside brackets only where a beat is the sound alone. -/
theorem shielded_beatToken (h : ',' ∉ sound.toList ∨ lone beat = false) :
    (beatToken sound beat).Shielded := by
  rcases beatToken_cases sound beat with ⟨_, he⟩ | ⟨hl, he⟩ | ⟨_, _, he⟩
  · exact he ▸ .rest
  · rcases h with h | h
    · exact he ▸ .atomic h
    · rw [hl] at h
      exact absurd h (by decide)
  · exact he ▸ .bracketed

end Beat

theorem length_beatsOf (steps : List Bool) : (beatsOf steps).length = beatsPerBar := by
  simp [beatsOf]

theorem flatten_beatsOf {steps : List Bool} {width : Nat}
    (h : steps.length = beatsPerBar * width) : (beatsOf steps).flatten = steps := by
  have hw : steps.length / beatsPerBar = width := by
    rw [h, Nat.mul_div_cancel_left _ (by decide)]
  have ht : ∀ upTo, ((List.range upTo).map fun beat =>
      (steps.drop (beat * width)).take width).flatten = steps.take (upTo * width) := by
    intro upTo
    induction upTo with
    | zero => simp
    | succ upTo ih =>
      rw [List.range_succ, List.map_append, List.flatten_append, ih, Nat.succ_mul, List.take_add]
      simp
  rw [beatsOf, hw, ht, ← h, List.take_length]

theorem length_of_mem_beatsOf {steps beat : List Bool} {width : Nat}
    (h : steps.length = beatsPerBar * width) (hb : beat ∈ beatsOf steps) : beat.length = width := by
  have hw : steps.length / beatsPerBar = width := by
    rw [h, Nat.mul_div_cancel_left _ (by decide)]
  rw [beatsOf, hw] at hb
  obtain ⟨index, hi, rfl⟩ := List.mem_map.mp hb
  have hl : index * width + width ≤ beatsPerBar * width := by
    rw [← Nat.succ_mul]
    exact Nat.mul_le_mul_right width (List.mem_range.mp hi)
  rw [List.length_take, List.length_drop, h]
  omega

end StepSequencer
