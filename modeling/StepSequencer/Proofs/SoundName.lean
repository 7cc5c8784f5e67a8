import StepSequencer.Pattern.SoundName
import StepSequencer.Proofs.Reading

/-! The sound that a text names. Every name is a word that can be written back and that names itself,
and the text of a tree holds the words of its leaves in order. -/

namespace StepSequencer

/-- A digit stands right after an asterisk somewhere in the text. -/
def HasCount (text : List Char) : Prop :=
  ∃ front digit back, isDigit digit = true ∧ text = front ++ '*' :: digit :: back

theorem hasCount_cons {c : Char} {rest : List Char} :
    HasCount (c :: rest) ↔ (c = '*' ∧ rest.head?.any isDigit = true) ∨ HasCount rest := by
  constructor
  · rintro ⟨front, digit, back, hd, he⟩
    rcases List.cons_eq_append_iff.mp he with ⟨rfl, hc⟩ | ⟨more, rfl, rfl⟩
    · obtain ⟨rfl, rfl⟩ := List.cons.inj hc
      exact .inl ⟨rfl, hd⟩
    · exact .inr ⟨more, digit, back, hd, rfl⟩
  · rintro (⟨rfl, hd⟩ | ⟨front, digit, back, hd, rfl⟩)
    · cases rest with
      | nil => simp at hd
      | cons digit back => exact ⟨[], digit, back, hd, rfl⟩
    · exact ⟨c :: front, digit, back, hd, rfl⟩

theorem not_hasCount_nil : ¬ HasCount [] := by
  rintro ⟨front, digit, back, _, he⟩
  simp at he

theorem HasCount.of_isInfix {part text : List Char} (h : HasCount part) (hi : part <:+: text) :
    HasCount text := by
  obtain ⟨front, digit, back, hd, rfl⟩ := h
  obtain ⟨before, after, rfl⟩ := hi
  exact ⟨before ++ front, digit, back ++ after, hd, by simp⟩

theorem EndsInCount.hasCount {text : List Char} (h : EndsInCount text) : HasCount text := by
  obtain ⟨front, digits, hn, hd, rfl⟩ := h
  obtain ⟨digit, back, rfl⟩ := List.exists_cons_of_ne_nil hn
  exact ⟨front, digit, back, hd digit List.mem_cons_self, rfl⟩

/-- A word that can stand for a sound wherever a sound is written, commas aside. -/
structure SoundWord (text : List Char) : Prop where
  ne_nil : text ≠ []
  not_blank : ∀ c ∈ text, isBlank c = false
  not_bracket : ∀ c ∈ text, weight c = 0
  not_rest : isRest text = false
  not_count : ¬ HasCount text

theorem soundWord_iff {text : List Char} :
    SoundWord text ↔ text ≠ [] ∧ text.all (fun c => !isBlank c && weight c == 0) = true ∧
      isRest text = false ∧ ¬ HasCount text := by
  simp only [List.all_eq_true, Bool.and_eq_true, Bool.not_eq_true', beq_iff_eq]
  constructor
  · intro h
    exact ⟨h.ne_nil, fun c hc => ⟨h.not_blank c hc, h.not_bracket c hc⟩, h.not_rest, h.not_count⟩
  · rintro ⟨hn, hc, hr, hh⟩
    exact ⟨hn, fun c hm => (hc c hm).1, fun c hm => (hc c hm).2, hr, hh⟩

theorem SoundWord.plainWord {text : List Char} (h : SoundWord text) : PlainWord text :=
  ⟨h.ne_nil, h.not_blank, h.not_bracket, h.not_rest, fun he => h.not_count he.hasCount⟩

section Counts

theorem withoutCounts_append {front back : List Char} (inCount : Bool)
    (h : back.head?.any isDigit = false) :
    withoutCounts inCount (front ++ back) =
      withoutCounts inCount front ++ withoutCounts false back := by
  induction front generalizing inCount with
  | nil =>
    cases back with
    | nil => rfl
    | cons c rest =>
      have hc : isDigit c = false := h
      simp [withoutCounts, hc]
  | cons c rest ih =>
    have hh : (rest ++ back).head?.any isDigit = rest.head?.any isDigit := by
      cases rest with
      | nil => exact h
      | cons d more => rfl
    simp only [List.cons_append, withoutCounts, hh, ih]
    split
    · rfl
    · split <;> rfl

theorem withoutCounts_of_not_hasCount {text : List Char} (h : ¬ HasCount text) :
    withoutCounts false text = text := by
  induction text with
  | nil => rfl
  | cons c rest ih =>
    rw [hasCount_cons, not_or] at h
    have hn : (c == '*' && rest.head?.any isDigit) = false := by
      rw [Bool.eq_false_iff, ne_eq, Bool.and_eq_true, beq_iff_eq]
      exact h.1
    simp [withoutCounts, hn, ih h.2]

theorem withoutCounts_digits {digits : List Char} (h : ∀ c ∈ digits, isDigit c = true) :
    withoutCounts true digits = [] := by
  induction digits with
  | nil => rfl
  | cons c rest ih =>
    simp [withoutCounts, h c List.mem_cons_self, ih fun d hd => h d (List.mem_cons_of_mem _ hd)]

theorem withoutCounts_count {digits : List Char} (hn : digits ≠ [])
    (h : ∀ c ∈ digits, isDigit c = true) : withoutCounts false ('*' :: digits) = [] := by
  obtain ⟨digit, rest, rfl⟩ := List.exists_cons_of_ne_nil hn
  have hd := h digit List.mem_cons_self
  simp [withoutCounts, hd, withoutCounts_digits fun c hc => h c (List.mem_cons_of_mem _ hc)]

theorem head_withoutCounts_true (text : List Char) :
    (withoutCounts true text).head?.any isDigit = false := by
  induction text with
  | nil => rfl
  | cons c rest ih =>
    simp only [withoutCounts, Bool.true_and]
    split
    · exact ih
    next hd =>
      split
      · exact ih
      · exact Bool.eq_false_iff.mpr hd

theorem head_withoutCounts_false {text : List Char} (h : text.head?.any isDigit = false) :
    (withoutCounts false text).head?.any isDigit = false := by
  cases text with
  | nil => rfl
  | cons c rest =>
    simp only [withoutCounts, Bool.false_and, Bool.false_eq_true, if_false]
    split
    · exact head_withoutCounts_true rest
    · exact h

theorem not_hasCount_withoutCounts (inCount : Bool) (text : List Char) :
    ¬ HasCount (withoutCounts inCount text) := by
  induction text generalizing inCount with
  | nil => exact not_hasCount_nil
  | cons c rest ih =>
    simp only [withoutCounts]
    split
    · exact ih true
    · split
      · exact ih true
      next hn =>
        rw [hasCount_cons, not_or]
        refine ⟨?_, ih false⟩
        rintro ⟨rfl, hd⟩
        have hr : rest.head?.any isDigit = false := by simpa using hn
        exact Bool.false_ne_true ((head_withoutCounts_false hr).symm.trans hd)

theorem hasCount_iff {text : List Char} : HasCount text ↔ withoutCounts false text ≠ text := by
  constructor
  · intro h he
    have hn := not_hasCount_withoutCounts false text
    rw [he] at hn
    exact hn h
  · intro h
    by_contra hn
    exact h (withoutCounts_of_not_hasCount hn)

instance : DecidablePred HasCount := fun _ => decidable_of_iff _ hasCount_iff.symm

instance : DecidablePred SoundWord := fun _ => decidable_of_iff _ soundWord_iff.symm

end Counts

theorem weight_unbracketed {text : List Char} : ∀ c ∈ unbracketed text, weight c = 0 := by
  intro c hc
  obtain ⟨d, _, rfl⟩ := List.mem_map.mp hc
  split
  next hw => exact hw
  next => decide

theorem unbracketed_of_weight {text : List Char} (h : ∀ c ∈ text, weight c = 0) :
    unbracketed text = text := by
  rw [unbracketed]
  exact (List.map_congr_left fun c hc => if_pos (h c hc)).trans (List.map_id text)

theorem withoutCounts_subset (inCount : Bool) (text : List Char) :
    withoutCounts inCount text ⊆ text := by
  induction text generalizing inCount with
  | nil => exact List.Subset.refl _
  | cons c rest ih =>
    simp only [withoutCounts]
    split
    · exact List.subset_cons_of_subset _ (ih true)
    · split
      · exact List.subset_cons_of_subset _ (ih true)
      · exact List.cons_subset_cons _ (ih false)

/-- The words of a text, brackets and counts left aside. -/
def soundWords (text : List Char) : List (List Char) :=
  words (withoutCounts false (unbracketed text))

theorem soundName_eq (text : List Char) :
    soundName text =
      (((soundWords text).find? (!isRest ·)).map String.ofList).getD defaultSound := by
  rw [soundName, soundWords]
  cases (words (withoutCounts false (unbracketed text))).find? (!isRest ·) <;> rfl

theorem mem_splitOnP_facts {p : Char → Bool} (text : List Char) :
    (∀ first ∈ (text.splitOnP p).head?, first <+: text) ∧
      ∀ part ∈ text.splitOnP p, part <:+: text ∧ ∀ c ∈ part, p c = false := by
  induction text with
  | nil => simp
  | cons c rest ih =>
    obtain ⟨hf, hp⟩ := ih
    obtain ⟨first, more, hm⟩ := List.exists_cons_of_ne_nil (List.splitOnP_ne_nil p rest)
    rw [hm] at hf hp
    rw [List.splitOnP_cons_eq_if_modifyHead, hm]
    have hr : ∀ part ∈ first :: more, part <:+: c :: rest ∧ ∀ d ∈ part, p d = false :=
      fun part ht => ⟨(hp part ht).1.trans (List.suffix_cons c rest).isInfix, (hp part ht).2⟩
    split
    next hc =>
      refine ⟨by simp, fun part ht => ?_⟩
      rcases List.mem_cons.mp ht with rfl | ht
      · exact ⟨List.nil_infix, by simp⟩
      · exact hr part ht
    next hc =>
      have hx : c :: first <+: c :: rest := List.cons_prefix_cons.mpr ⟨rfl, hf first rfl⟩
      refine ⟨by simpa using hf first rfl, fun part ht => ?_⟩
      rcases List.mem_cons.mp ht with rfl | ht
      · refine ⟨hx.isInfix, fun d hd => ?_⟩
        rcases List.mem_cons.mp hd with rfl | hd
        · exact Bool.eq_false_iff.mpr hc
        · exact (hp first List.mem_cons_self).2 d hd
      · exact hr part (List.mem_cons_of_mem _ ht)

theorem mem_words {word text : List Char} (h : word ∈ words text) :
    word ≠ [] ∧ word <:+: text ∧ ∀ c ∈ word, isBlank c = false := by
  simp only [words, List.mem_filter, Bool.not_eq_true', List.isEmpty_eq_false_iff] at h
  exact ⟨h.2, (mem_splitOnP_facts text).2 word h.1⟩

theorem words_of_not_blank {word : List Char} (hn : word ≠ [])
    (h : ∀ c ∈ word, isBlank c = false) : words word = [word] := by
  rw [words, List.splitOnP_eq_singleton h]
  simp [hn]

/-- Whatever the text, its name can be written wherever a sound is written. -/
theorem soundWord_soundName (text : List Char) : SoundWord (soundName text).toList := by
  rw [soundName_eq]
  cases hf : (soundWords text).find? (!isRest ·) with
  | none =>
    exact (by decide : SoundWord defaultSound.toList)
  | some word =>
    obtain ⟨hn, hi, hb⟩ := mem_words (List.mem_of_find?_eq_some hf)
    rw [Option.map_some, Option.getD_some, String.toList_ofList]
    refine ⟨hn, hb, fun c hc => ?_, by simpa using List.find?_some hf, fun hc => ?_⟩
    · exact weight_unbracketed c (withoutCounts_subset _ _ (hi.subset hc))
    · exact not_hasCount_withoutCounts _ _ (hc.of_isInfix hi)

theorem SoundWord.of_isInfix {sound word : List Char} (h : SoundWord sound) (hi : word <:+: sound)
    (hn : word ≠ []) (hr : isRest word = false) : SoundWord word where
  ne_nil := hn
  not_blank := fun c hc => h.not_blank c (hi.subset hc)
  not_bracket := fun c hc => h.not_bracket c (hi.subset hc)
  not_rest := hr
  not_count := fun hc => h.not_count (hc.of_isInfix hi)

theorem SoundWord.elementText_of_isInfix {sound word : List Char} (h : SoundWord sound)
    (hi : word <:+: sound) (hn : word ≠ []) : ElementText word :=
  elementText_of_forall hn (fun c hc => h.not_blank c (hi.subset hc))
    fun c hc => h.not_bracket c (hi.subset hc)

theorem mem_of_mem_soundName {text : List Char} {c : Char} (hc : c ∈ (soundName text).toList) :
    c ∈ text ∨ c ∈ defaultSound.toList := by
  rw [soundName_eq] at hc
  cases hf : (soundWords text).find? (!isRest ·) with
  | none =>
    rw [hf] at hc
    exact .inr hc
  | some word =>
    rw [hf, Option.map_some, Option.getD_some, String.toList_ofList] at hc
    obtain ⟨_, hi, hb⟩ := mem_words (List.mem_of_find?_eq_some hf)
    obtain ⟨d, hd, he⟩ := List.mem_map.mp (withoutCounts_subset _ _ (hi.subset hc))
    split at he
    · exact .inl (he ▸ hd)
    · exact absurd (hb c hc) (he ▸ by decide)

theorem words_append (front back : List Char) {sep : Char} (hs : isBlank sep = true) :
    words (front ++ sep :: back) = words front ++ words back := by
  rw [words, words, words, List.splitOnP_append_cons _ _ hs, List.filter_append]

theorem unbracketed_append (front back : List Char) :
    unbracketed (front ++ back) = unbracketed front ++ unbracketed back := List.map_append

theorem soundWords_append (front back : List Char) {sep : Char} (hs : unbracketed [sep] = [' ']) :
    soundWords (front ++ sep :: back) = soundWords front ++ soundWords back := by
  have hu : unbracketed (front ++ sep :: back) =
      unbracketed front ++ ' ' :: unbracketed back := by
    have he : front ++ sep :: back = front ++ ([sep] ++ back) := rfl
    rw [he, unbracketed_append, unbracketed_append, hs]
    rfl
  have hd : (' ' :: unbracketed back).head?.any isDigit = false := rfl
  have hw : withoutCounts false (' ' :: unbracketed back) =
      ' ' :: withoutCounts false (unbracketed back) := by simp [withoutCounts]
  rw [soundWords, hu, withoutCounts_append false hd, hw, words_append _ _ (by decide)]
  rfl

theorem soundWords_append_count (base : List Char) {count : Int} (hc : 0 ≤ count) :
    soundWords (base ++ '*' :: (toString count).toList) = soundWords base := by
  have hd : ∀ c ∈ (toString count).toList, c.isDigit = true :=
    fun _ hm => isDigit_of_mem_toString hc hm
  have hu : unbracketed ('*' :: (toString count).toList) = '*' :: (toString count).toList :=
    unbracketed_of_weight fun _ hm => weight_of_mem_count hc hm
  have hs : ('*' :: (toString count).toList).head?.any isDigit = false := rfl
  have hw := withoutCounts_count (toList_toString_ne_nil hc) fun c hm => isDigit_of_ascii (hd c hm)
  rw [soundWords, unbracketed_append, hu, withoutCounts_append false hs, hw, List.append_nil]
  rfl

theorem SoundWord.soundWords_eq {word : List Char} (h : SoundWord word) :
    soundWords word = [word] := by
  rw [soundWords, unbracketed_of_weight h.not_bracket, withoutCounts_of_not_hasCount h.not_count,
    words_of_not_blank h.ne_nil h.not_blank]

theorem soundWords_tilde : soundWords ['~'] = [['~']] := by decide

theorem soundWords_enclose {opening closing : Char} (inner : List Char)
    (ho : unbracketed [opening] = [' ']) (hc : unbracketed [closing] = [' ']) :
    soundWords (opening :: inner ++ [closing]) = soundWords inner := by
  have hn : soundWords [] = [] := by decide
  rw [soundWords_append _ _ hc, hn, List.append_nil]
  exact soundWords_append [] inner ho

theorem soundWords_intercalate (texts : List (List Char)) :
    soundWords ([' '].intercalate texts) = texts.flatMap soundWords := by
  induction texts with
  | nil => decide
  | cons first more ih =>
    cases more with
    | nil => simp
    | cons second more =>
      rw [List.intercalate_cons_cons, List.append_assoc, List.singleton_append,
        soundWords_append _ _ (by decide), ih]
      rfl

/-- The name is known once the words have been read up to one that is not a rest. -/
theorem soundName_of_words {text sound : List Char} {front back : List (List Char)}
    (hw : soundWords text = front ++ back) (hr : isRest sound = false) (hm : sound ∈ front)
    (h : ∀ word ∈ front, word = sound ∨ isRest word = true) :
    soundName text = String.ofList sound := by
  have hf : front.find? (!isRest ·) = some sound := by
    cases hf : front.find? (!isRest ·) with
    | none =>
      have := List.find?_eq_none.mp hf sound hm
      simp [hr] at this
    | some word =>
      have hp := List.find?_some hf
      rcases h word (List.mem_of_find?_eq_some hf) with rfl | hx
      · rfl
      · simp [hx] at hp
  rw [soundName_eq, hw, List.find?_append, hf]
  rfl

theorem soundName_of_soundWord {word : List Char} (h : SoundWord word) :
    soundName word = String.ofList word := by
  have hw : soundWords word = [word] ++ [] := h.soundWords_eq
  exact soundName_of_words hw h.not_rest List.mem_cons_self (by simp)

/-- Naming is settled after one time. The words that can stand for a sound are just the texts that
name themselves, and every name is such a word. -/
theorem soundName_stable (text : List Char) :
    SoundWord (soundName text).toList ∧
      soundName (soundName text).toList = soundName text ∧
      (soundName text = String.ofList text ↔ SoundWord text) := by
  have hs := soundWord_soundName text
  refine ⟨hs, ?_, fun h => ?_, soundName_of_soundWord⟩
  · rw [soundName_of_soundWord hs, String.ofList_toList]
  · rwa [h, String.toList_ofList] at hs

-- Counts in any script are left out, and an asterisk that stands before them is left over.
example : soundName "~ --- **١*2[*3".toList = "*" ∧ soundName ['*'] = "*" := by decide

end StepSequencer
