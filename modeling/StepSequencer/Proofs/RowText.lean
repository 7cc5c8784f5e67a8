import StepSequencer.Proofs.LayerText
import StepSequencer.Proofs.Onsets
import Mathlib.Algebra.Order.BigOperators.Group.List

/-! The text of a row of beats in which one word may stand for a beat: the voices that commas cut it
into, its steps and its name. -/

namespace StepSequencer

/-- The texts with a space after each. -/
def spread (texts : List (List Char)) : List Char := texts.flatMap (· ++ [' '])

section Spread

variable {texts : List (List Char)}

theorem spread_append (front back : List (List Char)) :
    spread (front ++ back) = spread front ++ spread back := List.flatMap_append

theorem spread_cons (text : List Char) (more : List (List Char)) :
    spread (text :: more) = text ++ ' ' :: spread more := by
  rw [spread, List.flatMap_cons, List.append_assoc]
  rfl

theorem spread_eq_concat (hn : texts ≠ []) : spread texts = [' '].intercalate texts ++ [' '] := by
  induction texts with
  | nil => exact absurd rfl hn
  | cons first more ih =>
    cases more with
    | nil => simp [spread]
    | cons second more =>
      rw [spread_cons, ih (by simp), List.intercalate_cons_cons, List.append_assoc,
        List.append_assoc]
      rfl

theorem voices_spread (texts : List (List Char)) :
    voices (spread texts) = voices ([' '].intercalate texts) := by
  by_cases hn : texts = []
  · subst hn
    rfl
  · rw [spread_eq_concat hn]
    exact segments_concat_blank _ _ (by decide)

theorem depth_spread (h : ∀ text ∈ texts, depth text = 0) : depth (spread texts) = 0 := by
  induction texts with
  | nil => rfl
  | cons first more ih =>
    have hm := ih fun text ht => h text (List.mem_cons_of_mem _ ht)
    have hw : weight ' ' = 0 := by decide
    rw [spread_cons, depth_append, depth_cons, h first List.mem_cons_self, hw, hm]
    rfl

theorem mem_spread {text : List Char} {c : Char} (ht : text ∈ texts) (hc : c ∈ text) :
    c ∈ spread texts :=
  List.mem_flatMap.mpr ⟨text, ht, List.mem_append_left _ hc⟩

theorem voices_intercalate (hn : texts ≠ []) (h : ∀ text ∈ texts, ElementText text)
    (hc : ∀ text ∈ texts, Whole (· == ',') text) :
    voices ([' '].intercalate texts) = [[' '].intercalate texts] :=
  segments_of_whole (whole_intercalate (List.forall_mem_singleton.mpr (by decide)) (by decide) hc
    fun text ht => (h text ht).balanced.depth_eq)
    (trimmed_intercalate hn fun text ht => (h text ht).trimmed)

theorem stepsOfText_intercalate (width : Nat) (hn : 2 ≤ texts.length)
    (h : ∀ text ∈ texts, ElementText text) (hl : ∀ text ∈ texts.getLast?, ¬ EndsInCount text) :
    stepsOfText ([' '].intercalate texts) (texts.length * width : Nat) =
      texts.flatMap fun text => (Token.read text).subdivide width := by
  have hs := Token.subdivide_sequence_mul (texts.map Token.read) width
  rw [List.length_map, List.flatMap_map] at hs
  rw [stepsOfText, Token.read_sequence hn h hl, Token.steps, Int.toNat_natCast,
    Token.expand_eq_subdivide, hs]

end Spread

section Around

variable {sound : String} {before after : List (List Bool)} {word : List Char} {width : Nat}

theorem elementText_beatText (h : PlainWord sound.toList) (beat : List Bool) :
    ElementText (beatText sound.toList beat) := by
  rw [← spell_beatToken]
  exact (wellFormed_beatToken h beat).elementText_spell (beatToken_element sound beat).1

theorem not_endsInCount_beatText (h : PlainWord sound.toList) (beat : List Bool) :
    ¬ EndsInCount (beatText sound.toList beat) := by
  rw [← spell_beatToken]
  obtain ⟨he, hc⟩ := beatToken_element sound beat
  exact (wellFormed_beatToken h beat).not_endsInCount_spell he hc

theorem whole_beatText (h : PlainWord sound.toList) {beat : List Bool} (hl : lone beat = false) :
    Whole (· == ',') (beatText sound.toList beat) := by
  rw [← spell_beatToken]
  exact (wellFormed_beatToken h beat).whole_spell (shielded_beatToken (.inr hl))

/-- The texts of a row in which a word stands between two runs of beats. -/
def around (sound : String) (before : List (List Bool)) (word : List Char)
    (after : List (List Bool)) : List (List Char) :=
  before.map (beatText sound.toList) ++ word :: after.map (beatText sound.toList)

theorem spread_around : spread (around sound before word after) =
    spread (before.map (beatText sound.toList)) ++ word ++
      ' ' :: spread (after.map (beatText sound.toList)) := by
  rw [around, spread_append, spread_cons, List.append_assoc]

theorem elementText_around (h : PlainWord sound.toList) (hw : ElementText word) :
    ∀ text ∈ around sound before word after, ElementText text :=
  List.forall_mem_append.mpr ⟨List.forall_mem_map.mpr fun beat _ => elementText_beatText h beat,
    List.forall_mem_cons.mpr ⟨hw, List.forall_mem_map.mpr fun beat _ => elementText_beatText h beat⟩⟩

theorem voices_around (h : PlainWord sound.toList) (hw : ElementText word) (hc : ',' ∉ word)
    (hl : ∀ beat ∈ before ++ after, lone beat = false) :
    voices ([' '].intercalate (around sound before word after)) =
      [[' '].intercalate (around sound before word after)] := by
  have hs : Whole (· == ',') word := by
    refine stretches_of_forall (fun c hm => beq_false_of_ne ?_) 0
    rintro rfl
    exact hc hm
  obtain ⟨hb, ha⟩ := List.forall_mem_append.mp hl
  refine voices_intercalate (by simp [around]) (elementText_around h hw) ?_
  exact List.forall_mem_append.mpr
    ⟨List.forall_mem_map.mpr fun beat hm => whole_beatText h (hb beat hm),
      List.forall_mem_cons.mpr ⟨hs, List.forall_mem_map.mpr fun beat hm =>
        whole_beatText h (ha beat hm)⟩⟩

theorem read_beatText_subdivide (h : PlainWord sound.toList) (beat : List Bool) :
    (Token.read (beatText sound.toList beat)).subdivide beat.length = beat := by
  rw [← spell_beatToken, read_beatToken h]
  exact beatToken_subdivide sound beat

/-- The beats around a word keep their steps, and the word fills the beat that it stands for. -/
theorem stepsOfText_around (h : PlainWord sound.toList) (hw : ElementText word)
    (hc : ¬ EndsInCount word) (hn : 2 ≤ before.length + 1 + after.length)
    (hl : ∀ beat ∈ before ++ after, beat.length = width) :
    stepsOfText ([' '].intercalate (around sound before word after))
        ((before.length + 1 + after.length) * width : Nat) =
      before.flatten ++ (Token.read word).subdivide width ++ after.flatten := by
  have he : (around sound before word after).length = before.length + 1 + after.length := by
    simp only [around, List.length_append, List.length_map, List.length_cons]
    omega
  have hb : ∀ beats : List (List Bool), (∀ beat ∈ beats, beat.length = width) →
      ((beats.map (beatText sound.toList)).flatMap fun text =>
        (Token.read text).subdivide width) = beats.flatten := by
    intro beats hm
    rw [List.flatMap_map, ← List.flatMap_id]
    refine List.flatMap_congr fun beat hx => ?_
    rw [← hm beat hx]
    exact read_beatText_subdivide h beat
  have hlast : ∀ text ∈ (around sound before word after).getLast?, ¬ EndsInCount text := by
    intro text ht
    rcases List.mem_append.mp (List.mem_of_mem_getLast? ht) with hm | hm
    · obtain ⟨beat, _, rfl⟩ := List.mem_map.mp hm
      exact not_endsInCount_beatText h beat
    · rcases List.mem_cons.mp hm with rfl | hm
      · exact hc
      · obtain ⟨beat, _, rfl⟩ := List.mem_map.mp hm
        exact not_endsInCount_beatText h beat
  obtain ⟨hbl, hal⟩ := List.forall_mem_append.mp hl
  rw [← he, stepsOfText_intercalate width (by omega) (elementText_around h hw) hlast, around,
    List.flatMap_append, List.flatMap_cons, hb before hbl, hb after hal, List.append_assoc]

theorem soundWords_around (h : SoundWord sound.toList) :
    soundWords ([' '].intercalate (around sound before word after)) =
      before.flatMap (fun beat => (beatToken sound beat).leaves) ++ soundWords word ++
        after.flatMap (fun beat => (beatToken sound beat).leaves) := by
  have hb : ∀ beat, soundWords (beatText sound.toList beat) = (beatToken sound beat).leaves := by
    intro beat
    rw [← spell_beatToken, (sounding_beatToken h beat).soundWords_spell]
  rw [soundWords_intercalate, around, List.flatMap_append, List.flatMap_cons, List.flatMap_map,
    List.flatMap_map, List.append_assoc]
  simp only [hb]

end Around

section Onsets

variable {sound : String}

theorem count_pos_of_any {beat : List Bool} (h : beat.any id = true) : 0 < beat.count true := by
  obtain ⟨on, hm, rfl : on = true⟩ := List.any_eq_true.mp h
  exact List.count_pos_iff.mpr hm

theorem sum_onsets_cells (sound : String) (beat : List Bool) :
    ((beat.map (cellToken sound)).map Token.onsets).sum = beat.count true := by
  induction beat with
  | nil => rfl
  | cons on more ih =>
    rw [List.map_cons, List.map_cons, List.sum_cons, ih]
    cases on
    · simp [cellToken, Token.onsets]
    · simp [cellToken, Token.onsets, Nat.add_comm]

theorem onsets_beatToken_le (sound : String) (beat : List Bool) :
    (beatToken sound beat).onsets ≤ beat.count true := by
  rcases beatToken_cases sound beat with ⟨_, he⟩ | ⟨hl, he⟩ | ⟨_, _, he⟩
  · rw [he]
    exact Nat.zero_le _
  · rw [he]
    exact count_pos_of_any (any_of_lone hl)
  · rw [he, Token.onsets, Token.onsets, Token.onsetsAll_eq, sum_onsets_cells]

theorem count_stepsOfText_row_le {beats : List (List Bool)} (h : PlainWord sound.toList)
    (hn : beats ≠ []) (stepCount : Int) :
    (stepsOfText ([' '].intercalate (beats.map (beatText sound.toList))) stepCount).count true ≤
      beats.flatten.count true := by
  have hsum : Token.onsetsAll (beats.map (beatToken sound)) ≤ beats.flatten.count true := by
    rw [Token.onsetsAll_eq, List.map_map, List.count_flatten]
    exact List.sum_le_sum fun beat _ => onsets_beatToken_le sound beat
  rw [stepsOfText, Token.steps, Token.expand_eq_subdivide]
  refine (Token.count_subdivide_le _ _).trans ?_
  obtain ⟨first, more, rfl⟩ := List.exists_cons_of_ne_nil hn
  cases more with
  | nil =>
    rw [List.map_singleton, List.intercalate_singleton, ← spell_beatToken, read_beatToken h]
    simpa using onsets_beatToken_le sound first
  | cons second more =>
    rw [← spell_row, read_row h (by simp)]
    exact hsum

end Onsets

end StepSequencer
