import StepSequencer.Proofs.Cut
import StepSequencer.Proofs.GridText

/-! The layers that come back from their own text. The commas of a sound stand where each hit is in a
group; where a beat is the sound alone they are lost, and seldom without a trace. -/

namespace StepSequencer

/-- The commas of the sound do no harm to the text of the layer. -/
inductive Layer.Unbroken (layer : Layer) : Prop
  /-- There are none. -/
  | plain (h : ',' ∉ layer.sound.toList)
  /-- Each hit is written inside a group. -/
  | grouped (he : layer.even = false) (hl : ∀ beat ∈ beatsOf layer.steps, lone beat = false)
  /-- Only in the last beat may the sound stand alone. It loses the commas that end it, and a group
  before it keeps the name. -/
  | trailing {before : List (List Bool)} {last : List Bool} {word commas : List Char}
    (he : layer.even = false) (hb : beatsOf layer.steps = before ++ [last])
    (hl : ∀ beat ∈ before, lone beat = false) (hh : ∃ beat ∈ before, beat.any id = true)
    (hs : layer.sound.toList = word ++ commas) (hn : word ≠ []) (hr : isRest word = false)
    (hc : ',' ∉ word) (hcs : ∀ c ∈ commas, c = ',')

namespace Layer

variable {layer : Layer} {width : Nat}

theorem shielded_tree_of_grouped (he : layer.even = false)
    (hl : ∀ beat ∈ beatsOf layer.steps, lone beat = false) : layer.tree.Shielded := by
  rw [tree, he, if_neg Bool.false_ne_true]
  exact .sequence (List.forall_mem_map.mpr fun beat hb => shielded_beatToken (.inr (hl beat hb)))

/-- Commas at the end of the last word are not read. -/
theorem voices_of_trailing {before : List (List Bool)} {word commas : List Char}
    (h : PlainWord layer.sound.toList) (hl : ∀ beat ∈ before, lone beat = false)
    (hw : ElementText word) (hc : ',' ∉ word) (hcs : ∀ c ∈ commas, c = ',') :
    voices (spread (around layer.sound before (word ++ commas) [])) =
      [[' '].intercalate (around layer.sound before word [])] := by
  have hd : depth (spread (before.map (beatText layer.sound.toList)) ++ word) = 0 := by
    rw [depth_append, depth_spread (List.forall_mem_map.mpr fun beat _ =>
      (elementText_beatText h beat).balanced.depth_eq), hw.balanced.depth_eq, Int.add_zero]
  have hgap : ∀ c ∈ commas ++ [' '], isBlank c = true ∨ c = ',' := by
    intro c hm
    rcases List.mem_append.mp hm with hm | hm
    · exact .inr (hcs c hm)
    · exact .inl (List.mem_singleton.mp hm ▸ by decide)
  have hs : spread (around layer.sound before (word ++ commas) []) =
      spread (before.map (beatText layer.sound.toList)) ++ word ++ (commas ++ [' ']) := by
    rw [spread_around]
    simp [spread]
  have ht : spread (around layer.sound before word []) =
      spread (before.map (beatText layer.sound.toList)) ++ word ++ [' '] := by
    rw [spread_around]
    rfl
  have hz := @voices_append_gap [' '] _ hd (List.forall_mem_singleton.mpr (.inl (by decide)))
  rw [hs, voices_append_gap hd hgap, ← hz, ← ht, voices_spread]
  exact voices_around h hw hc (by simpa using hl)

/-- The beats before the last name the row, and what is left of the sound plays the last. -/
theorem ofText_of_trailing {before : List (List Bool)} {last : List Bool} {word : List Char}
    (h : SoundWord layer.sound.toList) (hl : layer.steps.length = beatsPerBar * width)
    (hb : beatsOf layer.steps = before ++ [last]) (hm : layer.muted = false)
    (ho : lone last = true) (hh : ∃ beat ∈ before, beat.any id = true) (hw : SoundWord word) :
    Layer.ofText ([' '].intercalate (around layer.sound before word [])) layer.steps.length =
      layer := by
  have hlen : before.length + 1 + 0 = beatsPerBar := by
    rw [← length_beatsOf layer.steps, hb, List.length_append]
    rfl
  have hbeat : ∀ beat ∈ before ++ [last], beat.length = width :=
    fun beat hx => length_of_mem_beatsOf hl (hb ▸ hx)
  have hlast : (Token.read word).subdivide width = last := by
    rw [Token.read_word hw.plainWord, ← hbeat last (List.mem_append_right _ List.mem_cons_self)]
    exact (onset_eq_of_lone ho).symm
  have hsteps : stepsOfText ([' '].intercalate (around layer.sound before word []))
      layer.steps.length = layer.steps := by
    have hst := @stepsOfText_around layer.sound before [] word width h.plainWord
      hw.plainWord.elementText hw.plainWord.not_count (by rw [List.length_nil, hlen]; decide)
      fun beat hx => hbeat beat (List.mem_append_left _ (by simpa using hx))
    have hflat := flatten_beatsOf hl
    rw [hb, List.flatten_append, List.flatten_singleton] at hflat
    rw [List.length_nil, hlen, ← hl, hlast, List.flatten_nil, List.append_nil, hflat] at hst
    exact hst
  have hname : soundName ([' '].intercalate (around layer.sound before word [])) =
      layer.sound := by
    have hx := @soundWords_around layer.sound before [] word h
    rw [List.append_assoc] at hx
    rw [soundName_of_words hx h.not_rest, String.ofList_toList]
    · obtain ⟨beat, hx, ha⟩ := hh
      exact List.mem_flatMap.mpr ⟨beat, hx, sound_mem_leaves ha⟩
    · intro other hx
      obtain ⟨beat, _, hy⟩ := List.mem_flatMap.mp hx
      rcases leaves_beatToken hy with rfl | rfl
      · exact .inl rfl
      · exact .inr (by decide)
  rw [Layer.ofText, hsteps, hname, ← hm]

theorem layersOfText_text_of_unbroken (hl : layer.steps.length = beatsPerBar * width)
    (hw : 0 < width) (ha : layer.audible = true) (h : SoundWord layer.sound.toList)
    (hu : layer.Unbroken) :
    layersOfText (layer.text layer.steps.length) layer.steps.length = [layer] := by
  cases hu with
  | plain hc => exact layersOfText_text_of_shielded hl hw ha h (shielded_tree hc)
  | grouped he hn =>
    exact layersOfText_text_of_shielded hl hw ha h (shielded_tree_of_grouped he hn)
  | @trailing before last word commas he hb hn hh hs hne hr hc hcs =>
    cases ho : lone last with
    | false =>
      refine layersOfText_text_of_shielded hl hw ha h (shielded_tree_of_grouped he ?_)
      rw [hb]
      exact List.forall_mem_append.mpr ⟨hn, List.forall_mem_singleton.mpr ho⟩
    | true =>
      have hi : word <:+: layer.sound.toList := hs ▸ (List.prefix_append word commas).isInfix
      have hword := h.of_isInfix hi hne hr
      have hv := voices_of_trailing h.plainWord hn hword.plainWord.elementText hc hcs
      rw [← hs] at hv
      have hm : layer.muted = false := by
        simp only [audible, Bool.and_eq_true, Bool.not_eq_true'] at ha
        exact ha.1
      rw [layersOfText, voices_text hl hw he, map_beatText_eq_around hb ho, hv, List.map_singleton,
        ofText_of_trailing h hl hb hm ho hh hword]

/-- A sound that is played evenly stands outside of brackets, so that its commas cut it. -/
theorem not_comma_of_even {voice : List Char} (hl : layer.steps.length = beatsPerBar * width)
    (hw : 0 < width) (h : SoundWord layer.sound.toList) (he : layer.even = true)
    (hv : voice ∈ voices (layer.text layer.steps.length)) (hn : soundName voice = layer.sound) :
    ',' ∉ layer.sound.toList := by
  intro hc
  have hz : ∀ c ∈ layer.tree.spell, weight c = 0 := by
    rw [tree, he, if_pos rfl, Token.spell, Token.spell]
    intro c hm
    rcases List.mem_append.mp hm with hm | hm
    · exact h.not_bracket c hm
    · exact weight_of_mem_count (Int.natCast_nonneg _) hm
  rw [← spell_tree hl hw] at hv
  rw [← hn] at hc
  rcases mem_of_mem_soundName hc with hm | hm
  · exact absurd (not_isSep_of_mem_segments hz hv ',' hm) (by decide)
  · exact absurd hm (by decide)

/-- A sound of nothing but commas does not come back with the beats in which it stands alone. -/
theorem not_kept_of_commas {voice : List Char} {before after : List (List Bool)} {beat : List Bool}
    (h : SoundWord layer.sound.toList) (hl : layer.steps.length = beatsPerBar * width)
    (hs : ∀ c ∈ layer.sound.toList, c = ',') (hb : beatsOf layer.steps = before ++ beat :: after)
    (ho : lone beat = true)
    (hv : voice ∈ voices (spread ((beatsOf layer.steps).map (beatText layer.sound.toList)))) :
    stepsOfText voice layer.steps.length ≠ layer.steps := by
  intro he
  have hle := @count_of_comma_voice_le layer.sound [] (beatsOf layer.steps) voice h hs (by simp) hv
    layer.steps.length
  have hpos := count_pos_of_any (any_of_lone ho)
  have hcount := congrArg (List.count true) (flatten_beatsOf hl)
  have hbefore := count_filter_le before
  have hafter := count_filter_le after
  rw [hb, List.flatten_append, List.flatten_cons, List.count_append, List.count_append] at hcount
  rw [he, hb, List.nil_append, List.filter_append, List.filter_cons_of_neg (by simp [ho]),
    List.flatten_append, List.count_append] at hle
  omega

theorem exists_commas_append (text : List Char) :
    ∃ commas word, text = commas ++ word ∧ (∀ c ∈ commas, c = ',') ∧
      ∀ c, word.head? = some c → c ≠ ',' := by
  induction text with
  | nil => exact ⟨[], [], rfl, by simp, by simp⟩
  | cons c rest ih =>
    by_cases hc : c = ','
    · obtain ⟨commas, word, rfl, hm, hh⟩ := ih
      exact ⟨c :: commas, word, rfl, List.forall_mem_cons.mpr ⟨hc, hm⟩, hh⟩
    · exact ⟨[], c :: rest, rfl, by simp, by simpa using hc⟩

/-- The row of a layer, with a sound that is not all commas, is left in one piece. -/
structure OneVoice (layer : Layer) (voice : List Char) : Prop where
  sound : SoundWord layer.sound.toList
  solid : ∃ c ∈ layer.sound.toList, c ≠ ','
  voices_eq :
    voices (spread ((beatsOf layer.steps).map (beatText layer.sound.toList))) = [voice]

namespace OneVoice

variable {voice front back : List Char} {before after : List (List Bool)} {beat : List Bool}

theorem edge (h : layer.OneVoice voice) (hb : beatsOf layer.steps = before ++ beat :: after)
    (ho : lone beat = true) (hs : layer.sound.toList = front ++ ',' :: back) :
    (before = [] ∧ ∀ c ∈ front, c = ',') ∨ (after = [] ∧ ∀ c ∈ back, c = ',') := by
  have hv := congrArg List.length h.voices_eq
  rw [map_beatText_eq_around hb ho] at hv
  exact edge_of_one_voice h.sound h.solid hs hv

theorem not_lone_after (h : layer.OneVoice voice) (hb : beatsOf layer.steps = beat :: after)
    (hs : layer.sound.toList = ',' :: back) : ∀ other ∈ after, lone other = false := by
  intro other hm
  by_contra hx
  rw [Bool.not_eq_false] at hx
  obtain ⟨left, right, rfl⟩ := List.append_of_mem hm
  rcases h.edge (show _ = (beat :: left) ++ other :: right from hb) hx
    (show _ = [] ++ ',' :: back from hs) with ⟨he, _⟩ | ⟨_, hc⟩
  · exact List.cons_ne_nil _ _ he
  · obtain ⟨c, hm, hn⟩ := h.solid
    rw [hs] at hm
    exact hn ((List.mem_cons.mp hm).elim id (hc c))

theorem not_lone_before (h : layer.OneVoice voice) (hb : beatsOf layer.steps = before ++ [beat])
    (hs : layer.sound.toList = front ++ ',' :: back) (hn : front ≠ []) (hf : ',' ∉ front) :
    ∀ other ∈ before, lone other = false := by
  intro other hm
  by_contra hx
  rw [Bool.not_eq_false] at hx
  obtain ⟨left, right, rfl⟩ := List.append_of_mem hm
  rw [List.append_assoc] at hb
  rcases h.edge hb hx hs with ⟨_, hc⟩ | ⟨he, _⟩
  · obtain ⟨c, hm⟩ := List.exists_mem_of_ne_nil front hn
    exact hf (hc c hm ▸ hm)
  · exact List.append_ne_nil_of_right_ne_nil right (List.cons_ne_nil beat []) he

/-- What follows the commas that begin the sound has no comma itself. -/
theorem not_comma_of_leading {commas word : List Char} (h : layer.OneVoice voice)
    (hb : beatsOf layer.steps = beat :: after) (ho : lone beat = true)
    (hs : layer.sound.toList = commas ++ word) (hh : ∀ c, word.head? = some c → c ≠ ',') :
    ',' ∉ word := by
  intro hm
  obtain ⟨left, right, rfl⟩ := List.append_of_mem hm
  rw [← List.append_assoc] at hs
  rcases h.edge (show _ = [] ++ beat :: after from hb) ho hs with ⟨_, hc⟩ | ⟨ha, _⟩
  · cases left with
    | nil => exact hh ',' rfl rfl
    | cons c more => exact hh c rfl (hc c (List.mem_append_right _ List.mem_cons_self))
  · have hlen := length_beatsOf layer.steps
    simp [hb, ha, beatsPerBar] at hlen

/-- A comma that begins the sound takes the hit from the first beat, or the name from the row. -/
theorem not_kept_of_leading (h : layer.OneVoice voice)
    (hl : layer.steps.length = beatsPerBar * width) (hb : beatsOf layer.steps = beat :: after)
    (ho : lone beat = true) (hs : layer.sound.toList = ',' :: back) :
    Layer.ofText voice layer.steps.length ≠ layer := by
  intro hr
  obtain ⟨commas, word, hcut, hcommas, hhead⟩ := exists_commas_append layer.sound.toList
  have hne : word ≠ [] := by
    rintro rfl
    obtain ⟨c, hm, hx⟩ := h.solid
    rw [hcut, List.append_nil] at hm
    exact hx (hcommas c hm)
  have hword := h.not_comma_of_leading hb ho hcut hhead
  have hi : word <:+: layer.sound.toList := hcut ▸ (List.suffix_append commas word).isInfix
  -- The leading commas are no part of the voice, which begins with the rest of the sound.
  have hvoice : voice = [' '].intercalate (around layer.sound [] word after) := by
    have hgap := voices_gap_append (spread (around layer.sound [] word after))
      fun c hm => .inr (hcommas c hm)
    have ha : commas ++ spread (around layer.sound [] word after) =
        spread (around layer.sound [] (commas ++ word) after) := by
      rw [spread_around, spread_around]
      simp [spread]
    rw [ha, ← hcut, ← map_beatText_eq_around (show _ = [] ++ beat :: after from hb) ho,
      h.voices_eq, voices_spread, voices_around h.sound.plainWord
        (h.sound.elementText_of_isInfix hi hne) hword (h.not_lone_after hb hs)] at hgap
    exact List.singleton_inj.mp hgap
  rw [hvoice] at hr
  obtain ⟨_, other, hm, _⟩ := kept_around h.sound hl (show _ = [] ++ beat :: after from hb) ho hi
    hne (hs ▸ List.mem_cons_self) hword hr
  exact List.not_mem_nil hm

/-- Commas that end the sound are lost from the last beat alone, and nothing else is. -/
theorem unbroken_of_trailing (h : layer.OneVoice voice)
    (hl : layer.steps.length = beatsPerBar * width) (he : layer.even = false)
    (hb : beatsOf layer.steps = before ++ [beat]) (ho : lone beat = true)
    (hs : layer.sound.toList = front ++ ',' :: back) (hf : ',' ∉ front)
    (hcs : ∀ c ∈ ',' :: back, c = ',') (hr : Layer.ofText voice layer.steps.length = layer) :
    layer.Unbroken := by
  have hne : front ≠ [] := by
    rintro rfl
    obtain ⟨c, hm, hx⟩ := h.solid
    rw [hs] at hm
    exact hx (hcs c hm)
  have hbefore := h.not_lone_before hb hs hne hf
  have hi : front <:+: layer.sound.toList := hs ▸ (List.prefix_append _ _).isInfix
  have hv := voices_of_trailing h.sound.plainWord hbefore
    (h.sound.elementText_of_isInfix hi hne) hf hcs
  rw [← hs, ← map_beatText_eq_around hb ho, h.voices_eq] at hv
  rw [List.singleton_inj.mp hv] at hr
  obtain ⟨hrest, hh⟩ := kept_around h.sound hl hb ho hi hne
    (hs ▸ List.mem_append_right front List.mem_cons_self) hf hr
  exact .trailing he hb hbefore hh hs hne hrest hf hcs

end OneVoice

theorem unbroken_of_layersOfText_text (hl : layer.steps.length = beatsPerBar * width)
    (hw : 0 < width) (h : SoundWord layer.sound.toList)
    (hr : layersOfText (layer.text layer.steps.length) layer.steps.length = [layer]) :
    layer.Unbroken := by
  by_cases hc : ',' ∈ layer.sound.toList
  swap
  · exact .plain hc
  obtain ⟨voice, hv, hr⟩ := List.map_eq_singleton_iff.mp hr
  cases he : layer.even with
  | true =>
    have hm : voice ∈ voices (layer.text layer.steps.length) := hv ▸ List.mem_cons_self
    exact absurd hc (not_comma_of_even hl hw h he hm (congrArg Layer.sound hr))
  | false =>
    by_cases hg : ∀ beat ∈ beatsOf layer.steps, lone beat = false
    · exact .grouped he hg
    rw [voices_text hl hw he] at hv
    obtain ⟨beat, hm, ho⟩ : ∃ beat ∈ beatsOf layer.steps, lone beat = true := by
      by_contra hx
      exact hg fun beat hm => Bool.eq_false_iff.mpr fun ho => hx ⟨beat, hm, ho⟩
    obtain ⟨before, after, hb⟩ := List.append_of_mem hm
    by_cases hn : ∀ c ∈ layer.sound.toList, c = ','
    · have hm : voice ∈ voices (spread _) := hv ▸ List.mem_cons_self
      exact absurd (congrArg Layer.steps hr) (not_kept_of_commas h hl hn hb ho hm)
    have hx : layer.OneVoice voice := by
      refine ⟨h, ?_, hv⟩
      by_contra hx
      exact hn fun c hm => by_contra fun hne => hx ⟨c, hm, hne⟩
    -- The first comma of the sound decides between the two ends of the row.
    obtain ⟨front, back, hs, hf⟩ := List.eq_append_cons_of_mem hc
    rcases hx.edge hb ho hs with ⟨rfl, hfc⟩ | ⟨rfl, hbc⟩
    · have hz : front = [] := List.eq_nil_iff_forall_not_mem.mpr fun c hm => hf (hfc c hm ▸ hm)
      subst hz
      exact absurd hr (hx.not_kept_of_leading hl hb ho hs)
    · exact hx.unbroken_of_trailing hl he hb ho hs hf (List.forall_mem_cons.mpr ⟨rfl, hbc⟩) hr

theorem voices_text_ne_nil (hl : layer.steps.length = beatsPerBar * width) (hw : 0 < width)
    (h : SoundWord layer.sound.toList) : voices (layer.text layer.steps.length) ≠ [] := by
  cases he : layer.even with
  | true =>
    have hm : '*' ∈ layer.tree.spell := by
      rw [tree, he, if_pos rfl, Token.spell]
      exact List.mem_append_right _ List.mem_cons_self
    rw [← spell_tree hl hw]
    exact voices_ne_nil hm (by decide) (by decide)
  | false =>
    have hg : ∃ beat ∈ beatsOf layer.steps, lone beat = false := by
      by_contra hx
      have ht : layer.even = true := even_of_lone hl hw fun beat hm =>
        by_contra fun ho => hx ⟨beat, hm, Bool.eq_false_iff.mpr ho⟩
      exact Bool.false_ne_true (he.symm.trans ht)
    obtain ⟨beat, hm, ho⟩ := hg
    obtain ⟨c, hc, hb, hn⟩ := solid_beatText h (.inl ho)
    rw [voices_text hl hw he]
    exact voices_ne_nil (mem_spread (List.mem_map.mpr ⟨beat, hm, rfl⟩) hc) hb hn

end Layer

end StepSequencer
