import StepSequencer.Proofs.SoundName

/-! Texts that differ in their blanks only: a gap may be any run of blanks, but it stays a gap. But
for the blanks around them, these are the texts that hold the same words. -/

namespace StepSequencer

/-- Blanks, one or more of them. -/
structure Gap (text : List Char) : Prop where
  ne_nil : text ≠ []
  blank : ∀ c ∈ text, isBlank c = true

/-- One text comes from the other by a gap put in the place of each of some gaps. -/
inductive Respaced : List Char → List Char → Prop where
  | nil : Respaced [] []
  | cons (c : Char) {first second : List Char} (more : Respaced first second) :
    Respaced (c :: first) (c :: second)
  | gap {gap other first second : List Char} (hg : Gap gap) (ho : Gap other)
    (more : Respaced first second) : Respaced (gap ++ first) (other ++ second)

theorem Gap.reverse {gap : List Char} (h : Gap gap) : Gap gap.reverse where
  ne_nil := by simpa using h.ne_nil
  blank := fun c hc => h.blank c (List.mem_reverse.mp hc)

theorem Gap.exists_cons {gap : List Char} (h : Gap gap) :
    ∃ c rest, gap = c :: rest ∧ isBlank c = true := by
  obtain ⟨c, rest, rfl⟩ := List.exists_cons_of_ne_nil h.ne_nil
  exact ⟨c, rest, rfl, h.blank c List.mem_cons_self⟩

namespace Respaced

variable {first second : List Char}

theorem refl (text : List Char) : Respaced text text := by
  induction text with
  | nil => exact .nil
  | cons c rest ih => exact .cons c ih

theorem symm (h : Respaced first second) : Respaced second first := by
  induction h with
  | nil => exact .nil
  | cons c _ ih => exact .cons c ih
  | gap hg ho _ ih => exact .gap ho hg ih

theorem append (h : Respaced first second) {back other : List Char} (hb : Respaced back other) :
    Respaced (first ++ back) (second ++ other) := by
  induction h with
  | nil => exact hb
  | cons c _ ih => exact .cons c ih
  | gap hg ho _ ih =>
    rw [List.append_assoc, List.append_assoc]
    exact .gap hg ho ih

theorem of_gaps {gap other : List Char} (hg : Gap gap) (ho : Gap other) : Respaced gap other := by
  simpa only [List.append_nil] using Respaced.gap hg ho .nil

theorem reverse (h : Respaced first second) : Respaced first.reverse second.reverse := by
  induction h with
  | nil => exact .nil
  | cons c _ ih =>
    rw [List.reverse_cons, List.reverse_cons]
    exact ih.append (refl [c])
  | gap hg ho _ ih =>
    rw [List.reverse_append, List.reverse_append]
    exact ih.append (of_gaps hg.reverse ho.reverse)

theorem isEmpty_eq (h : Respaced first second) : first.isEmpty = second.isEmpty := by
  cases h with
  | nil => rfl
  | cons c _ => rfl
  | gap hg ho _ =>
    rw [List.isEmpty_eq_false_iff.mpr (List.append_ne_nil_of_left_ne_nil hg.ne_nil _),
      List.isEmpty_eq_false_iff.mpr (List.append_ne_nil_of_left_ne_nil ho.ne_nil _)]

theorem eq_of_not_blank (h : Respaced first second) (hb : ∀ c ∈ first, isBlank c = false) :
    first = second := by
  induction h with
  | nil => rfl
  | cons c _ ih => rw [ih fun d hd => hb d (List.mem_cons_of_mem c hd)]
  | gap hg _ _ _ =>
    obtain ⟨c, rest, rfl, hc⟩ := hg.exists_cons
    exact absurd (hb c (by simp)) (by simp [hc])

theorem of_cons {c : Char} (h : Respaced (c :: first) second) (hc : isBlank c = false) :
    ∃ rest, second = c :: rest ∧ Respaced first rest := by
  generalize ht : c :: first = text at h
  cases h with
  | nil => cases ht
  | cons d more =>
    obtain ⟨rfl, rfl⟩ := List.cons.inj ht
    exact ⟨_, rfl, more⟩
  | gap hg _ _ =>
    obtain ⟨d, rest, rfl, hd⟩ := hg.exists_cons
    obtain ⟨rfl, _⟩ := List.cons.inj ht
    exact absurd hd (by simp [hc])

theorem of_concat {c : Char} (h : Respaced (first ++ [c]) second) (hc : isBlank c = false) :
    ∃ rest, second = rest ++ [c] ∧ Respaced first rest := by
  have hr : Respaced (c :: first.reverse) second.reverse := by simpa using h.reverse
  obtain ⟨rest, hs, hm⟩ := hr.of_cons hc
  refine ⟨rest.reverse, ?_, by simpa using hm.reverse⟩
  rw [← List.reverse_cons, ← hs, List.reverse_reverse]

theorem of_append {front back : List Char} (h : Respaced (front ++ back) second)
    (hb : ∀ c ∈ back, isBlank c = false) :
    ∃ other, second = other ++ back ∧ Respaced front other := by
  induction back generalizing front with
  | nil => exact ⟨second, (List.append_nil _).symm, by simpa using h⟩
  | cons c rest ih =>
    obtain ⟨hc, hr⟩ := List.forall_mem_cons.mp hb
    have hf : Respaced (front ++ [c] ++ rest) second := by simpa using h
    obtain ⟨other, rfl, ho⟩ := ih hf hr
    obtain ⟨more, rfl, hm⟩ := ho.of_concat hc
    exact ⟨more, by simp, hm⟩

theorem dropBlanks (h : Respaced first second) :
    Respaced (first.dropWhile isBlank) (second.dropWhile isBlank) := by
  induction h with
  | nil => exact .nil
  | cons c hm ih =>
    cases hc : isBlank c with
    | true => simpa [hc] using ih
    | false => simpa [hc] using Respaced.cons c hm
  | gap hg ho _ ih =>
    rw [List.dropWhile_append_of_pos hg.blank, List.dropWhile_append_of_pos ho.blank]
    exact ih

theorem trimmed (h : Respaced first second) : Respaced (trim first) (trim second) :=
  h.dropBlanks.reverse.dropBlanks.reverse

end Respaced

section Words

theorem words_of_blank {text : List Char} (h : ∀ c ∈ text, isBlank c = true) : words text = [] := by
  induction text with
  | nil => rfl
  | cons c rest ih =>
    obtain ⟨hc, hr⟩ := List.forall_mem_cons.mp h
    exact (words_append [] rest hc).trans (ih hr)

theorem words_blanks_append {gap : List Char} (h : ∀ c ∈ gap, isBlank c = true)
    (text : List Char) : words (gap ++ text) = words text := by
  induction gap with
  | nil => rfl
  | cons c rest ih =>
    obtain ⟨hc, hr⟩ := List.forall_mem_cons.mp h
    exact (words_append [] (rest ++ text) hc).trans (ih hr)

theorem words_append_blanks {gap : List Char} (h : ∀ c ∈ gap, isBlank c = true)
    (text : List Char) : words (text ++ gap) = words text := by
  cases gap with
  | nil => rw [List.append_nil]
  | cons c rest =>
    obtain ⟨hc, hr⟩ := List.forall_mem_cons.mp h
    rw [words_append text rest hc, words_of_blank hr, List.append_nil]

theorem words_append_gap {gap : List Char} (h : Gap gap) (front text : List Char) :
    words (front ++ (gap ++ text)) = words front ++ words text := by
  obtain ⟨c, rest, rfl, hc⟩ := h.exists_cons
  rw [List.cons_append, words_append _ _ hc,
    words_blanks_append fun d hd => h.blank d (List.mem_cons_of_mem c hd)]

theorem words_trim (text : List Char) : words (trim text) = words text := by
  obtain ⟨lead, trail, hl, ht, he⟩ := exists_trim text
  conv_rhs => rw [he, words_blanks_append hl, words_append_blanks ht]

/-- The text in front of both gathers what has been read of a word. -/
theorem Respaced.words_append_eq {first second : List Char} (h : Respaced first second)
    (front : List Char) : words (front ++ first) = words (front ++ second) := by
  induction h generalizing front with
  | nil => rfl
  | cons c _ ih =>
    have hi := ih (front ++ [c])
    rwa [List.append_assoc, List.append_assoc] at hi
  | gap hg ho _ ih =>
    rw [words_append_gap hg, words_append_gap ho]
    exact congrArg (words front ++ ·) (ih [])

theorem Respaced.words_eq {first second : List Char} (h : Respaced first second) :
    words first = words second := h.words_append_eq []

theorem words_word_append {word gap : List Char} (hn : word ≠ [])
    (h : ∀ c ∈ word, isBlank c = false) (hg : Gap gap) (rest : List Char) :
    words (word ++ (gap ++ rest)) = word :: words rest := by
  rw [words_append_gap hg, words_of_not_blank hn h, List.singleton_append]

theorem trimmed_dropWhile {text : List Char} (hn : text ≠ [])
    (hl : ∀ c ∈ text.getLast?, isBlank c = false) : Trimmed (text.dropWhile isBlank) := by
  have hs := List.takeWhile_append_dropWhile (p := isBlank) (l := text)
  have hr : text.dropWhile isBlank ≠ [] := by
    intro he
    have hb := List.dropWhile_eq_nil_iff.mp he _ (List.getLast_mem hn)
    rw [hl _ (List.getLast_mem_getLast? hn)] at hb
    exact Bool.false_ne_true hb
  refine ⟨hr, fun c hc => ?_, fun c hc => hl c ?_⟩
  · rw [Option.mem_def] at hc
    simpa [hc] using List.head?_dropWhile_not isBlank text
  · rwa [← hs, List.getLast?_append_of_ne_nil _ hr]

/-- A trimmed text is a word, or a word and a gap before another trimmed text. -/
theorem Trimmed.exists_word {text : List Char} (h : Trimmed text) :
    ∃ word, word ≠ [] ∧ (∀ c ∈ word, isBlank c = false) ∧
      (text = word ∨ ∃ gap rest, Gap gap ∧ Trimmed rest ∧ text = word ++ (gap ++ rest)) := by
  have hw : ∀ c ∈ text.takeWhile (!isBlank ·), isBlank c = false := by
    intro c hc
    simpa using List.mem_takeWhile_imp hc
  have hn : text.takeWhile (!isBlank ·) ≠ [] := by
    obtain ⟨c, rest, rfl⟩ := List.exists_cons_of_ne_nil h.ne_nil
    simp [h.head c rfl]
  have hd := List.takeWhile_append_dropWhile (p := (!isBlank ·)) (l := text)
  have hb := List.head?_dropWhile_not (!isBlank ·) text
  refine ⟨text.takeWhile (!isBlank ·), hn, hw, ?_⟩
  cases ht : text.dropWhile (!isBlank ·) with
  | nil => exact .inl (by rw [ht, List.append_nil] at hd; exact hd.symm)
  | cons c tail =>
    rw [ht] at hd hb
    have hl : ∀ d ∈ (c :: tail).getLast?, isBlank d = false := by
      intro d hm
      refine h.last d ?_
      rwa [← hd, List.getLast?_append_of_ne_nil _ (List.cons_ne_nil c tail)]
    have hc : isBlank c = true := by simpa using hb
    have hg : Gap ((c :: tail).takeWhile isBlank) :=
      ⟨by simp [hc], fun _ hm => List.mem_takeWhile_imp hm⟩
    refine .inr ⟨_, _, hg, trimmed_dropWhile (List.cons_ne_nil c tail) hl, ?_⟩
    rw [List.takeWhile_append_dropWhile, hd]

theorem Trimmed.words_ne_nil {text : List Char} (h : Trimmed text) : words text ≠ [] := by
  obtain ⟨word, hn, hb, rfl | ⟨gap, rest, hg, _, rfl⟩⟩ := h.exists_word
  · simp [words_of_not_blank hn hb]
  · simp [words_word_append hn hb hg]

/-- The words are taken off both texts one by one, each with the gap after it. -/
theorem Trimmed.respaced {first second : List Char} (hf : Trimmed first) (hs : Trimmed second)
    (h : words first = words second) : Respaced first second := by
  induction hn : first.length using Nat.strong_induction_on generalizing first second with
  | _ n ih =>
    obtain ⟨word, hw, hb, rfl | ⟨gap, rest, hg, hr, rfl⟩⟩ := hf.exists_word
    · obtain ⟨other, ho, hbo, rfl | ⟨back, more, hk, hm, rfl⟩⟩ := hs.exists_word
      · rw [words_of_not_blank hw hb, words_of_not_blank ho hbo, List.singleton_inj] at h
        rw [h]
        exact .refl second
      · rw [words_of_not_blank hw hb, words_word_append ho hbo hk] at h
        exact absurd (List.cons.inj h).2.symm hm.words_ne_nil
    · obtain ⟨other, ho, hbo, rfl | ⟨back, more, hk, hm, rfl⟩⟩ := hs.exists_word
      · rw [words_word_append hw hb hg, words_of_not_blank ho hbo] at h
        exact absurd (List.cons.inj h).2 hr.words_ne_nil
      · rw [words_word_append hw hb hg, words_word_append ho hbo hk] at h
        obtain ⟨rfl, ht⟩ := List.cons.inj h
        have hl : rest.length < n := by
          have hp := List.length_pos_iff.mpr hw
          simp only [List.length_append] at hn
          omega
        exact (Respaced.refl word).append (.gap hg hk (ih _ hl hr hm ht rfl))

/-- Texts with the same words are respaced, when the blanks around them are left aside. -/
theorem respaced_trim_iff {first second : List Char} :
    Respaced (trim first) (trim second) ↔ words first = words second := by
  rw [← words_trim first, ← words_trim second]
  refine ⟨Respaced.words_eq, fun h => ?_⟩
  by_cases hf : trim first = []
  · by_cases hs : trim second = []
    · rw [hf, hs]
      exact .nil
    · exact absurd (by rw [← h, hf]; rfl) (trimmed_trim hs).words_ne_nil
  · by_cases hs : trim second = []
    · exact absurd (by rw [h, hs]; rfl) (trimmed_trim hf).words_ne_nil
    · exact (trimmed_trim hf).respaced (trimmed_trim hs) h

instance {first second : List Char} : Decidable (Respaced (trim first) (trim second)) :=
  decidable_of_iff _ respaced_trim_iff.symm

end Words

end StepSequencer
