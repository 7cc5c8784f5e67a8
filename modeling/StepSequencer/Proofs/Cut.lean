import StepSequencer.Proofs.RowText

/-! The commas of a sound. Inside a group they stand; where a beat is the sound alone they cut the
row, and what is left of the beat can only seldom stand for it. -/

namespace StepSequencer

section Cut

variable {sound : String} {before after : List (List Bool)} {front back : List Char}

theorem solid_beatText {beat : List Bool} (h : SoundWord sound.toList)
    (hs : lone beat = false ∨ ∃ c ∈ sound.toList, c ≠ ',') :
    ∃ c ∈ beatText sound.toList beat, isBlank c = false ∧ c ≠ ',' := by
  rw [← spell_beatToken]
  rcases beatToken_cases sound beat with ⟨_, he⟩ | ⟨hl, he⟩ | ⟨_, _, he⟩
  · exact ⟨'~', by simp [he, Token.spell], by decide, by decide⟩
  · rcases hs with hn | ⟨c, hc, hne⟩
    · rw [hl] at hn
      exact absurd hn (by decide)
    · exact ⟨c, by simpa [he, Token.spell] using hc, h.not_blank c hc, hne⟩
  · exact ⟨'[', by simp [he, Token.spell], by decide, by decide⟩

theorem voices_ne_nil_of_beat {beat : List Bool} {beats : List (List Bool)} {text : List Char}
    (h : SoundWord sound.toList) (hs : ∃ c ∈ sound.toList, c ≠ ',') (hb : beat ∈ beats)
    (ht : spread (beats.map (beatText sound.toList)) ⊆ text) : voices text ≠ [] := by
  obtain ⟨c, hc, hcb, hcs⟩ := @solid_beatText sound beat h (.inr hs)
  exact voices_ne_nil (ht (mem_spread (List.mem_map.mpr ⟨beat, hb, rfl⟩) hc)) hcb hcs

theorem voices_cut (h : PlainWord sound.toList) (hw : ∀ c ∈ front, weight c = 0) :
    voices (spread (around sound before (front ++ ',' :: back) after)) =
      voices (spread (before.map (beatText sound.toList)) ++ front) ++
        voices (back ++ ' ' :: spread (after.map (beatText sound.toList))) := by
  have hb : depth (spread (before.map (beatText sound.toList))) = 0 :=
    depth_spread (List.forall_mem_map.mpr fun beat _ => (elementText_beatText h beat).balanced.depth_eq)
  have he : spread (around sound before (front ++ ',' :: back) after) =
      spread (before.map (beatText sound.toList)) ++ front ++
        ',' :: (back ++ ' ' :: spread (after.map (beatText sound.toList))) := by
    rw [spread_around]
    simp only [List.append_assoc, List.cons_append]
  rw [he]
  exact segments_append_sep _ (by rw [depth_append, hb, depth_eq_zero hw, Int.add_zero])
    (by decide) (by decide)

/-- Where a row stays one voice, a comma that is not shielded has only commas before it in the
first beat, or only commas after it in the last. -/
theorem edge_of_one_voice (h : SoundWord sound.toList) (hn : ∃ c ∈ sound.toList, c ≠ ',')
    (hs : sound.toList = front ++ ',' :: back)
    (hv : (voices (spread (around sound before sound.toList after))).length = 1) :
    (before = [] ∧ ∀ c ∈ front, c = ',') ∨ (after = [] ∧ ∀ c ∈ back, c = ',') := by
  have hx := @voices_cut sound before after front back h.plainWord fun c hc =>
    h.not_bracket c (hs ▸ List.mem_append_left _ hc)
  rw [← hs] at hx
  rw [hx, List.length_append] at hv
  have hf : voices (spread (before.map (beatText sound.toList)) ++ front) = [] →
      before = [] ∧ ∀ c ∈ front, c = ',' := by
    intro hv
    constructor
    · refine List.eq_nil_iff_forall_not_mem.mpr fun beat hb => ?_
      exact voices_ne_nil_of_beat h hn hb (List.subset_append_left _ _) hv
    · intro c hc
      by_contra hne
      have hb := h.not_blank c (hs ▸ List.mem_append_left _ hc)
      exact voices_ne_nil (List.mem_append_right _ hc) hb hne hv
  have hb : voices (back ++ ' ' :: spread (after.map (beatText sound.toList))) = [] →
      after = [] ∧ ∀ c ∈ back, c = ',' := by
    intro hv
    constructor
    · refine List.eq_nil_iff_forall_not_mem.mpr fun beat hb => ?_
      exact voices_ne_nil_of_beat h hn hb
        (List.subset_append_of_subset_right _ (List.subset_cons_self _ _)) hv
    · intro c hc
      by_contra hne
      have hb := h.not_blank c (hs ▸ List.mem_append_right _ (List.mem_cons_of_mem _ hc))
      exact voices_ne_nil (List.mem_append_left _ hc) hb hne hv
  rcases Nat.eq_zero_or_pos
    (voices (spread (before.map (beatText sound.toList)) ++ front)).length with hz | hp
  · exact .inl (hf (List.eq_nil_of_length_eq_zero hz))
  · exact .inr (hb (List.eq_nil_of_length_eq_zero (by omega)))

theorem count_of_voice_le {beats : List (List Bool)} {voice : List Char} (h : PlainWord sound.toList)
    (hl : ∀ beat ∈ beats, lone beat = false)
    (hv : voice ∈ voices (spread (beats.map (beatText sound.toList)))) (stepCount : Int) :
    (stepsOfText voice stepCount).count true ≤ beats.flatten.count true := by
  by_cases hn : beats = []
  · subst hn
    simp [spread, voices, segments, stretches, trim, trimBy] at hv
  · have hm : beats.map (beatText sound.toList) ≠ [] := by simpa using hn
    rw [voices_spread, voices_intercalate hm
      (List.forall_mem_map.mpr fun beat _ => elementText_beatText h beat)
      (List.forall_mem_map.mpr fun beat hb => whole_beatText h (hl beat hb)),
      List.mem_singleton] at hv
    rw [hv]
    exact count_stepsOfText_row_le h hn stepCount

theorem filter_of_not_lone {beats : List (List Bool)} (hl : ∀ beat ∈ beats, lone beat = false) :
    beats.filter (!lone ·) = beats :=
  List.filter_eq_self.mpr fun beat hb => by rw [hl beat hb, Bool.not_false]

theorem count_filter_le (beats : List (List Bool)) :
    (beats.filter (!lone ·)).flatten.count true ≤ beats.flatten.count true := by
  induction beats with
  | nil => exact Nat.le_refl _
  | cons first more ih =>
    rw [List.filter_cons, List.flatten_cons, List.count_append]
    split
    · rw [List.flatten_cons, List.count_append]
      omega
    · omega

/-- A sound of nothing but commas is lost from the beats in which it stands alone. -/
theorem count_of_comma_voice_le {beats : List (List Bool)} {voice : List Char}
    (h : SoundWord sound.toList) (hs : ∀ c ∈ sound.toList, c = ',')
    (hl : ∀ beat ∈ before, lone beat = false)
    (hv : voice ∈ voices (spread ((before ++ beats).map (beatText sound.toList))))
    (stepCount : Int) :
    (stepsOfText voice stepCount).count true ≤
      ((before ++ beats).filter (!lone ·)).flatten.count true := by
  -- `before` holds the beats since the last one that was lost.
  induction beats generalizing before with
  | nil =>
    rw [List.append_nil] at hv ⊢
    rw [filter_of_not_lone hl]
    exact count_of_voice_le h.plainWord hl hv stepCount
  | cons beat more ih =>
    cases ho : lone beat with
    | false =>
      have hi := @ih (before ++ [beat]) fun other hm => by
        rcases List.mem_append.mp hm with hm | hm
        · exact hl other hm
        · rw [List.mem_singleton.mp hm, ho]
      rw [List.append_assoc, List.singleton_append] at hi
      exact hi hv
    | true =>
      obtain ⟨c, rest, hc⟩ := List.exists_cons_of_ne_nil h.ne_nil
      obtain rfl := hs c (hc ▸ List.mem_cons_self)
      have hgap : ∀ d ∈ rest ++ [' '], isBlank d = true ∨ d = ',' := by
        intro d hd
        rcases List.mem_append.mp hd with hd | hd
        · exact .inr (hs d (hc ▸ List.mem_cons_of_mem _ hd))
        · exact .inl (List.mem_singleton.mp hd ▸ by decide)
      have hcut := @voices_cut sound before more [] rest h.plainWord (by simp)
      have hx := voices_gap_append (spread (more.map (beatText sound.toList))) hgap
      rw [List.append_assoc, List.singleton_append] at hx
      rw [List.nil_append, ← hc, hx, List.append_nil] at hcut
      have ha : around sound before sound.toList more =
          (before ++ beat :: more).map (beatText sound.toList) := by
        rw [around, List.map_append, List.map_cons, beatText_of_lone ho]
      have hf : (beat :: more).filter (!lone ·) = more.filter (!lone ·) :=
        List.filter_cons_of_neg (by simp [ho])
      rw [← ha, hcut] at hv
      rw [List.filter_append, hf, List.flatten_append, List.count_append]
      rcases List.mem_append.mp hv with hv | hv
      · have hle := count_of_voice_le h.plainWord hl hv stepCount
        rw [filter_of_not_lone hl]
        omega
      · have hle := @ih [] (by simp) hv
        rw [List.nil_append] at hle
        omega

end Cut

namespace Layer

variable {layer : Layer} {width : Nat} {before after : List (List Bool)} {beat : List Bool}

theorem voices_text (hl : layer.steps.length = beatsPerBar * width) (hw : 0 < width)
    (he : layer.even = false) :
    voices (layer.text layer.steps.length) =
      voices (spread ((beatsOf layer.steps).map (beatText layer.sound.toList))) := by
  rw [← spell_tree hl hw, tree, he, if_neg Bool.false_ne_true, spell_row, voices_spread]

theorem map_beatText_eq_around (hb : beatsOf layer.steps = before ++ beat :: after)
    (ho : lone beat = true) :
    (beatsOf layer.steps).map (beatText layer.sound.toList) =
      around layer.sound before layer.sound.toList after := by
  rw [hb, around, List.map_append, List.map_cons, beatText_of_lone ho]

theorem not_isRest_of_steps {word : List Char} (h : PlainWord layer.sound.toList)
    (hl : layer.steps.length = beatsPerBar * width)
    (hb : beatsOf layer.steps = before ++ beat :: after) (ho : lone beat = true)
    (hw : ElementText word) (hc : ¬ EndsInCount word)
    (hs : stepsOfText ([' '].intercalate (around layer.sound before word after))
      layer.steps.length = layer.steps) : isRest word = false := by
  by_contra hx
  rw [Bool.not_eq_false] at hx
  have hlen : before.length + 1 + after.length = beatsPerBar := by
    rw [← length_beatsOf layer.steps, hb, List.length_append, List.length_cons]
    omega
  have hmem : ∀ other ∈ before ++ beat :: after, other.length = width :=
    fun other hm => length_of_mem_beatsOf hl (hb ▸ hm)
  obtain ⟨hbefore, hrest⟩ := List.forall_mem_append.mp hmem
  obtain ⟨hbeat, hafter⟩ := List.forall_mem_cons.mp hrest
  have hst := stepsOfText_around h hw hc (by rw [hlen]; decide)
    (List.forall_mem_append.mpr ⟨hbefore, hafter⟩)
  have hflat := flatten_beatsOf hl
  rw [hb, List.flatten_append, List.flatten_cons] at hflat
  rw [hlen, ← hl, hs, Token.read_of_isRest hw.trimmed hx, ← hflat, List.append_assoc] at hst
  have hcut := List.append_cancel_left hst
  have hsil := List.append_inj_left hcut (by rw [hbeat, Token.length_subdivide])
  have hany := any_of_lone ho
  rw [hsil] at hany
  exact Bool.false_ne_true ((any_silence width).symm.trans hany)

theorem soundName_around {word : List Char} (h : SoundWord layer.sound.toList)
    (hw : SoundWord word) (hn : ∀ other ∈ before, other.any id = false) :
    soundName ([' '].intercalate (around layer.sound before word after)) = String.ofList word := by
  refine soundName_of_words (soundWords_around h) hw.not_rest ?_ ?_
  · rw [hw.soundWords_eq]
    exact List.mem_append_right _ (List.mem_singleton_self _)
  · intro other hm
    rcases List.mem_append.mp hm with hm | hm
    · obtain ⟨silent, hmb, hml⟩ := List.mem_flatMap.mp hm
      rcases beatToken_cases layer.sound silent with ⟨_, he⟩ | ⟨ho, _⟩ | ⟨ha, _, _⟩
      · rw [he, Token.leaves, List.mem_singleton] at hml
        exact .inr (hml ▸ by decide)
      · exact absurd ((any_of_lone ho).symm.trans (hn silent hmb)) (by decide)
      · exact absurd (ha.symm.trans (hn silent hmb)) (by decide)
    · rw [hw.soundWords_eq, List.mem_singleton] at hm
      exact .inl hm

/-- If a row comes back although only a part of its sound, one without a comma, was left of a beat,
then that part has sounded and a beat before it has named the row. -/
theorem kept_around {word : List Char} (h : SoundWord layer.sound.toList)
    (hl : layer.steps.length = beatsPerBar * width)
    (hb : beatsOf layer.steps = before ++ beat :: after) (ho : lone beat = true)
    (hi : word <:+: layer.sound.toList) (hn : word ≠ []) (hs : ',' ∈ layer.sound.toList)
    (hc : ',' ∉ word) (hr : Layer.ofText ([' '].intercalate (around layer.sound before word after))
      layer.steps.length = layer) :
    isRest word = false ∧ ∃ other ∈ before, other.any id = true := by
  have hrest := not_isRest_of_steps h.plainWord hl hb ho (h.elementText_of_isInfix hi hn)
    (fun he => h.not_count (he.hasCount.of_isInfix hi)) (congrArg Layer.steps hr)
  refine ⟨hrest, ?_⟩
  by_contra hx
  have hname := @soundName_around layer before after word h (h.of_isInfix hi hn hrest)
    fun other hm => Bool.eq_false_iff.mpr fun ha => hx ⟨other, hm, ha⟩
  have hsound := congrArg Layer.sound hr
  rw [Layer.ofText, hname] at hsound
  rw [← hsound, String.toList_ofList] at hs
  exact hc hs

end Layer

end StepSequencer
