import StepSequencer.Pattern.Spelling
import StepSequencer.Proofs.Count
import StepSequencer.Proofs.Segments

/-! Reading what a tree spells. Each form of text fits one rule and none of the rules that are tried
before it, so that a well-formed tree comes back from its text. -/

namespace StepSequencer

theorem mem_of_isRest {text : List Char} (h : isRest text = true) :
    ∀ c ∈ text, c = '~' ∨ c = '-' ∨ c = '\n' := by
  have hm : ∀ c ∈ dropLineEnd text, c = '~' ∨ c = '-' := by
    simp only [isRest, Bool.or_eq_true, Bool.and_eq_true, beq_iff_eq, List.all_eq_true] at h
    rcases h with h | h
    · simp [h]
    · exact fun c hc => .inr (h.2 c hc)
  have ht : ∀ c ∈ text, c ∈ dropLineEnd text ∨ c = '\n' := by
    intro c hc
    rw [dropLineEnd]
    split
    next hl =>
      rw [← List.dropLast_append_getLast? '\n' hl] at hc
      simpa using hc
    · exact .inl hc
  intro c hc
  rcases ht c hc with hc | rfl
  · exact (hm c hc).imp_right .inl
  · exact .inr (.inr rfl)

theorem not_isRest_of_mem {text : List Char} {c : Char} (h : c ∈ text) (ht : c ≠ '~')
    (hd : c ≠ '-') (hn : c ≠ '\n') : isRest text = false := by
  rw [Bool.eq_false_iff]
  intro hr
  rcases mem_of_isRest hr c h with he | he | he <;> contradiction

/-- A word that is read as a single hit. -/
structure PlainWord (text : List Char) : Prop where
  ne_nil : text ≠ []
  not_blank : ∀ c ∈ text, isBlank c = false
  not_bracket : ∀ c ∈ text, weight c = 0
  not_rest : isRest text = false
  not_count : ¬ EndsInCount text

/-- A text that stands as one element among others. -/
structure ElementText (text : List Char) : Prop where
  trimmed : Trimmed text
  balanced : Balanced text
  whole : Whole isBlank text

theorem elementText_of_forall {text : List Char} (hn : text ≠ [])
    (hb : ∀ c ∈ text, isBlank c = false) (hw : ∀ c ∈ text, weight c = 0) : ElementText text where
  trimmed := trimmed_of_forall hn hb
  balanced := balanced_of_weight hw
  whole := stretches_of_forall hb 0

theorem PlainWord.elementText {text : List Char} (h : PlainWord text) : ElementText text :=
  elementText_of_forall h.ne_nil h.not_blank h.not_bracket

theorem elementText_tilde : ElementText ['~'] :=
  elementText_of_forall (by simp) (List.forall_mem_singleton.mpr (by decide))
    (List.forall_mem_singleton.mpr (by decide))

theorem PlainWord.not_enclosed {text : List Char} {opening closing : Char} (h : PlainWord text)
    (ho : weight opening = 1) : enclosed opening closing text = false := by
  have hh : text.head? ≠ some opening := by
    intro he
    simpa [ho] using h.not_bracket opening (List.mem_of_mem_head? he)
  simp [enclosed, hh]

theorem trimmed_enclose {opening closing : Char} (inner : List Char)
    (ho : isBlank opening = false) (hc : isBlank closing = false) :
    Trimmed (opening :: inner ++ [closing]) :=
  (trimmed_of_forall (List.cons_ne_nil opening []) (by simpa using ho)).append inner
    (trimmed_of_forall (List.cons_ne_nil closing []) (by simpa using hc))

theorem Balanced.elementText_enclose {opening closing : Char} {inner : List Char}
    (h : Balanced inner) (ho : weight opening = 1) (hc : weight closing = -1) :
    ElementText (opening :: inner ++ [closing]) := by
  have hbo : isBlank opening = false := not_isBlank_of_weight (by simp [ho])
  have hbc : isBlank closing = false := not_isBlank_of_weight (by simp [hc])
  exact ⟨trimmed_enclose inner hbo hbc, h.enclose ho hc, h.whole_enclose ho hc hbc⟩

section Repeat

variable {base : List Char} {count : Int}

theorem Trimmed.append_count (hb : Trimmed base) (hc : 0 ≤ count) :
    Trimmed (base ++ '*' :: (toString count).toList) := by
  have hd : Trimmed (toString count).toList :=
    trimmed_of_forall (toList_toString_ne_nil hc) fun _ hm =>
      not_isBlank_of_isDigit (isDigit_of_mem_toString hc hm)
  simpa only [List.append_assoc, List.singleton_append] using hb.append ['*'] hd

theorem Balanced.append_count (hb : Balanced base) (hc : 0 ≤ count) :
    Balanced (base ++ '*' :: (toString count).toList) :=
  hb.append (balanced_of_weight fun _ hm => weight_of_mem_count hc hm)

theorem ElementText.append_count (hb : ElementText base) (hc : 0 ≤ count) :
    ElementText (base ++ '*' :: (toString count).toList) where
  trimmed := hb.trimmed.append_count hc
  balanced := hb.balanced.append_count hc
  whole := hb.whole.append hb.balanced.depth_eq
    (stretches_of_forall (fun _ hm => not_isBlank_of_mem_count hc hm) 0)

end Repeat

theorem elements_intercalate {texts : List (List Char)} (h : ∀ text ∈ texts, ElementText text) :
    elements ([' '].intercalate texts) = texts := by
  rw [elements, segments_intercalate (by decide) (by decide) (by simp)
    fun text ht => (h text (List.dropLast_subset _ ht)).balanced.depth_eq]
  have hm : ∀ text ∈ texts, segments isBlank text = [text] :=
    fun text ht => segments_of_whole (h text ht).whole (h text ht).trimmed
  rw [List.flatMap_congr hm, List.flatMap_singleton']

theorem endsInCount_intercalate {texts : List (List Char)}
    (h : EndsInCount ([' '].intercalate texts)) : ∃ text ∈ texts.getLast?, EndsInCount text := by
  induction texts with
  | nil =>
    obtain ⟨c, hc, _⟩ := h.last_isDigit
    simp at hc
  | cons first more ih =>
    cases more with
    | nil => exact ⟨first, rfl, by simpa using h⟩
    | cons second more =>
      rw [List.intercalate_cons_cons, List.append_assoc] at h
      simpa using ih (h.of_append (by decide) (by decide))

theorem not_endsInCount_concat (front : List Char) {c : Char} (hc : isDigit c = false) :
    ¬ EndsInCount (front ++ [c]) := by
  intro h
  obtain ⟨d, hl, hd⟩ := h.last_isDigit
  rw [List.getLast?_concat, Option.some.injEq] at hl
  rw [← hl, hc] at hd
  exact Bool.false_ne_true hd

theorem formOf_of_count {text base digits : List Char} (ht : Trimmed text)
    (hr : isRest text = false) (hs : repeatSuffix? text = some (base, digits)) :
    formOf text = .repeated base digits := by
  have he : text.isEmpty = false := by simp [ht.ne_nil]
  simp [formOf, ht.trim_eq, he, hr, hs]

theorem formOf_of_no_count {text : List Char} (ht : Trimmed text) (hr : isRest text = false)
    (hs : ¬ EndsInCount text) :
    formOf text =
      if enclosed '[' ']' text then .bracketed (inside text)
      else if enclosed '<' '>' text then .alternation (elements (inside text))
      else if 2 ≤ (elements text).length then .sequence (elements text)
      else .word text := by
  have he : text.isEmpty = false := by simp [ht.ne_nil]
  simp [formOf, ht.trim_eq, he, hr, repeatSuffix?_eq_none hs]

theorem formOf_of_isRest {text : List Char} (ht : Trimmed text) (hr : isRest text = true) :
    formOf text = .rest := by
  simp [formOf, ht.trim_eq, hr]

theorem formOf_word {text : List Char} (h : PlainWord text) : formOf text = .word text := by
  have hs : elements text = [text] := segments_of_whole h.elementText.whole h.elementText.trimmed
  rw [formOf_of_no_count h.elementText.trimmed h.not_rest h.not_count]
  simp [h.not_enclosed, hs, show weight '[' = 1 by decide, show weight '<' = 1 by decide]

/-- A count at the end is read before all else, whatever stands before it. -/
theorem formOf_repeated {base : List Char} {count : Int} (hb : Trimmed base) (hc : 0 ≤ count) :
    formOf (base ++ '*' :: (toString count).toList) = .repeated base (toString count).toList := by
  have hr : isRest (base ++ '*' :: (toString count).toList) = false :=
    @not_isRest_of_mem _ '*' (by simp) (by decide) (by decide) (by decide)
  exact formOf_of_count (hb.append_count hc) hr (repeatSuffix?_append hb.ne_nil
    (toList_toString_ne_nil hc) fun _ hm => isDigit_of_ascii (isDigit_of_mem_toString hc hm))

theorem inside_enclose (opening closing : Char) (inner : List Char) :
    inside (opening :: inner ++ [closing]) = inner := by
  simp [inside]

theorem formOf_bracketed {inner : List Char} (h : Balanced inner) :
    formOf ('[' :: inner ++ [']']) = .bracketed inner := by
  have hr : isRest ('[' :: inner ++ [']']) = false :=
    @not_isRest_of_mem _ '[' (by simp) (by decide) (by decide) (by decide)
  have he : enclosed '[' ']' ('[' :: inner ++ [']']) = true :=
    (enclosed_iff_balanced (by decide) (by decide)).mpr h
  rw [formOf_of_no_count (trimmed_enclose inner (by decide) (by decide)) hr
    (not_endsInCount_concat _ (by decide))]
  simp only [he, if_true, inside_enclose]

theorem formOf_alternation {inner : List Char} (h : Balanced inner) :
    formOf ('<' :: inner ++ ['>']) = .alternation (elements inner) := by
  have hr : isRest ('<' :: inner ++ ['>']) = false :=
    @not_isRest_of_mem _ '<' (by simp) (by decide) (by decide) (by decide)
  have hn : enclosed '[' ']' ('<' :: inner ++ ['>']) = false := by simp [enclosed]
  have he : enclosed '<' '>' ('<' :: inner ++ ['>']) = true :=
    (enclosed_iff_balanced (by decide) (by decide)).mpr h
  rw [formOf_of_no_count (trimmed_enclose inner (by decide) (by decide)) hr
    (not_endsInCount_concat _ (by decide))]
  simp only [hn, he, if_true, Bool.false_eq_true, if_false, inside_enclose]

theorem formOf_sequence {texts : List (List Char)} (hn : 2 ≤ texts.length)
    (h : ∀ text ∈ texts, ElementText text) (hl : ∀ text ∈ texts.getLast?, ¬ EndsInCount text) :
    formOf ([' '].intercalate texts) = .sequence texts := by
  obtain ⟨first, second, more, rfl⟩ : ∃ first second more, texts = first :: second :: more := by
    match texts, hn with
    | first :: second :: more, _ => exact ⟨first, second, more, rfl⟩
  have ht : Trimmed ([' '].intercalate (first :: second :: more)) :=
    trimmed_intercalate (by simp) fun text hm => (h text hm).trimmed
  have hc : ¬ EndsInCount ([' '].intercalate (first :: second :: more)) := by
    intro hc
    obtain ⟨text, hm, he⟩ := endsInCount_intercalate hc
    exact hl text hm he
  have hi : [' '].intercalate (first :: second :: more) =
      first ++ ' ' :: [' '].intercalate (second :: more) := by
    rw [List.intercalate_cons_cons, List.append_assoc]
    rfl
  have hr : isRest ([' '].intercalate (first :: second :: more)) = false := by
    rw [hi]
    exact @not_isRest_of_mem _ ' ' (by simp) (by decide) (by decide) (by decide)
  have he : ∀ opening closing,
      enclosed opening closing ([' '].intercalate (first :: second :: more)) = false := by
    intro opening closing
    rw [hi]
    exact not_enclosed_append (h first List.mem_cons_self).trimmed.ne_nil (by simp)
      (h first List.mem_cons_self).balanced.depth_eq
  rw [formOf_of_no_count ht hr hc, elements_intercalate h, he, he]
  simp

/-- What the trimmed text of a form looks like. -/
inductive Form.Matches (text : List Char) : Form → Prop
  | rest : Form.Matches text .rest
  | repeated {base digits : List Char} (hb : base ≠ []) (hd : ∀ c ∈ digits, isDigit c = true)
    (he : trim text = base ++ '*' :: digits) : Form.Matches text (.repeated base digits)
  | bracketed {inner : List Char} (he : trim text = '[' :: inner ++ [']']) :
    Form.Matches text (.bracketed inner)
  | alternation {inner : List Char} (he : trim text = '<' :: inner ++ ['>']) :
    Form.Matches text (.alternation (elements inner))
  | sequence (hc : repeatSuffix? (trim text) = none) (hn : 2 ≤ (elements (trim text)).length) :
    Form.Matches text (.sequence (elements (trim text)))
  | word (ht : Trimmed (trim text)) (hr : isRest (trim text) = false) :
    Form.Matches text (.word (trim text))

theorem matches_formOf (text : List Char) : (formOf text).Matches text := by
  rw [formOf]
  by_cases hr : ((trim text).isEmpty || isRest (trim text)) = true
  · rw [if_pos hr]
    exact .rest
  rw [if_neg hr]
  simp only [Bool.or_eq_true, not_or, List.isEmpty_iff, Bool.not_eq_true] at hr
  cases hc : repeatSuffix? (trim text) with
  | some found =>
    obtain ⟨base, digits⟩ := found
    obtain ⟨hb, _, hd, he⟩ := eq_append_of_repeatSuffix? hc
    exact .repeated hb hd he
  | none =>
    by_cases hsq : enclosed '[' ']' (trim text) = true
    · simp only [hsq, if_true]
      exact .bracketed (eq_of_enclosed hsq)
    by_cases han : enclosed '<' '>' (trim text) = true
    · simp only [hsq, han, if_true]
      exact .alternation (eq_of_enclosed han)
    by_cases hs : 2 ≤ (elements (trim text)).length
    · simp only [hsq, han, if_pos hs]
      exact .sequence hc hs
    · simp only [hsq, han, if_neg hs]
      exact .word (trimmed_trim hr.1) hr.2

namespace Token

theorem read_of_isRest {text : List Char} (ht : Trimmed text) (hr : isRest text = true) :
    Token.read text = .rest := by
  rw [Token.read_eq, formOf_of_isRest ht hr]

theorem read_rest : Token.read ['~'] = .rest :=
  read_of_isRest elementText_tilde.trimmed (by decide)

theorem read_word {text : List Char} (h : PlainWord text) :
    Token.read text = .atomic (String.ofList text) := by
  rw [Token.read_eq, formOf_word h]

theorem read_repeated {base : List Char} {count : Int} (hb : Trimmed base) (hc : 0 ≤ count) :
    Token.read (base ++ '*' :: (toString count).toList) = .repeated (Token.read base) count := by
  rw [Token.read_eq, formOf_repeated hb hc]
  exact congrArg _ (numberOfDigits_toString hc)

theorem read_bracketed {inner : List Char} (h : Balanced inner) :
    Token.read ('[' :: inner ++ [']']) = .bracketed (Token.read inner) := by
  rw [Token.read_eq, formOf_bracketed h]

theorem read_sequence {texts : List (List Char)} (hn : 2 ≤ texts.length)
    (h : ∀ text ∈ texts, ElementText text) (hl : ∀ text ∈ texts.getLast?, ¬ EndsInCount text) :
    Token.read ([' '].intercalate texts) = .sequence (texts.map Token.read) := by
  rw [Token.read_eq, formOf_sequence hn h hl]

end Token

end StepSequencer
