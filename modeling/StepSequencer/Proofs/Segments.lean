import StepSequencer.Proofs.Nesting
import Mathlib.Data.List.DropRight

/-! The parts of a text between its separators. Texts that are whole and trimmed come back from
the text that joins them. -/

namespace StepSequencer

/-- A text that is not empty, with no blank at either end. -/
structure Trimmed (text : List Char) : Prop where
  ne_nil : text ≠ []
  head : ∀ c ∈ text.head?, isBlank c = false
  last : ∀ c ∈ text.getLast?, isBlank c = false

theorem trim_eq_rdropWhile (text : List Char) :
    trim text = (text.dropWhile isBlank).rdropWhile isBlank := rfl

theorem Trimmed.trim_eq {text : List Char} (h : Trimmed text) : trim text = text := by
  have hd : text.dropWhile isBlank = text := by
    cases text with
    | nil => rfl
    | cons c rest => simp [h.head c rfl]
  rw [trim_eq_rdropWhile, hd, List.rdropWhile_eq_self_iff]
  intro hn
  simpa using h.last (text.getLast hn) (List.getLast_mem_getLast? hn)

theorem trimmed_of_forall {text : List Char} (hn : text ≠ [])
    (h : ∀ c ∈ text, isBlank c = false) : Trimmed text where
  ne_nil := hn
  head := fun c hc => h c (List.mem_of_mem_head? hc)
  last := fun c hc => h c (List.mem_of_mem_getLast? hc)

theorem Trimmed.append {front back : List Char} (hf : Trimmed front) (middle : List Char)
    (hb : Trimmed back) : Trimmed (front ++ middle ++ back) where
  ne_nil := by simp [hf.ne_nil]
  head := by
    obtain ⟨c, rest, rfl⟩ := List.exists_cons_of_ne_nil hf.ne_nil
    simpa using hf.head
  last := by
    intro c hc
    rw [List.getLast?_append_of_ne_nil _ hb.ne_nil] at hc
    exact hb.last c hc

theorem trim_cons_blank {c : Char} (text : List Char) (h : isBlank c = true) :
    trim (c :: text) = trim text := by
  rw [trim_eq_rdropWhile, trim_eq_rdropWhile, List.dropWhile_cons_of_pos h]

theorem trim_concat_blank (text : List Char) {c : Char} (h : isBlank c = true) :
    trim (text ++ [c]) = trim text := by
  rw [trim_eq_rdropWhile, trim_eq_rdropWhile, List.dropWhile_append]
  split
  next he => simp [List.isEmpty_iff.mp he, h]
  next => exact List.rdropWhile_concat_pos _ _ _ h

theorem trimmed_trim {text : List Char} (hn : trim text ≠ []) : Trimmed (trim text) where
  ne_nil := hn
  head := by
    intro c hc
    have hp : trim text <+: text.dropWhile isBlank := List.rdropWhile_prefix _ _
    obtain ⟨rest, hr⟩ := hp
    obtain ⟨d, more, hm⟩ := List.exists_cons_of_ne_nil hn
    have hd : (text.dropWhile isBlank).head? = some c := by
      rw [← hr, List.head?_append_of_ne_nil _ hn]
      exact hc
    simpa [hd] using List.head?_dropWhile_not isBlank text
  last := by
    intro c hc
    have hl := List.rdropWhile_last_not isBlank (text.dropWhile isBlank) hn
    rw [Option.mem_def, List.getLast?_eq_some_getLast hn, Option.some.injEq] at hc
    exact Bool.eq_false_iff.mpr (hc ▸ hl)

theorem exists_trim (text : List Char) :
    ∃ lead trail, (∀ c ∈ lead, isBlank c = true) ∧ (∀ c ∈ trail, isBlank c = true) ∧
      text = lead ++ (trim text ++ trail) := by
  refine ⟨text.takeWhile isBlank, (text.dropWhile isBlank).rtakeWhile isBlank,
    fun _ hc => List.mem_takeWhile_imp hc, fun _ hc => List.mem_rtakeWhile_imp hc, ?_⟩
  rw [trim_eq_rdropWhile, List.rdropWhile_append_rtakeWhile, List.takeWhile_append_dropWhile]

theorem segments_append_sep {isSep : Char → Bool} {front : List Char} {sep : Char}
    (back : List Char) (hd : depth front = 0) (hs : isSep sep = true) (hw : weight sep = 0) :
    segments isSep (front ++ sep :: back) = segments isSep front ++ segments isSep back := by
  have hz : (0 : Int) + depth front = 0 := by rw [hd, Int.zero_add]
  simp only [segments, stretches_append_sep back hz hs hw, List.map_append, List.filter_append]

theorem Whole.segments_eq {isSep : Char → Bool} {text : List Char} (h : Whole isSep text) :
    segments isSep text = [trim text].filter (!·.isEmpty) := by
  rw [Whole] at h
  rw [segments, h, List.map_singleton]

theorem segments_of_whole {isSep : Char → Bool} {text : List Char} (hw : Whole isSep text)
    (ht : Trimmed text) : segments isSep text = [text] := by
  simp [hw.segments_eq, ht.trim_eq, ht.ne_nil]

theorem segments_cons_blank (isSep : Char → Bool) {c : Char} (text : List Char)
    (h : isBlank c = true) : segments isSep (c :: text) = segments isSep text := by
  obtain ⟨first, more, hm⟩ := List.exists_cons_of_ne_nil (stretches_ne_nil isSep 0 text)
  have ht : trim [] = [] := rfl
  simp only [segments, stretches, weight_of_isBlank h, Int.zero_add, hm, true_and]
  split
  · simp [ht]
  · simp [trim_cons_blank first h]

/-- A character after a text goes to its last stretch or cuts it off. -/
theorem stretches_concat (isSep : Char → Bool) (d : Int) (text : List Char) (c : Char) :
    stretches isSep d (text ++ [c]) = stretches isSep d text ++ [[]] ∨
      ∃ front last, stretches isSep d text = front ++ [last] ∧
        stretches isSep d (text ++ [c]) = front ++ [last ++ [c]] := by
  induction text generalizing d with
  | nil =>
    by_cases hc : d + weight c = 0 ∧ isSep c = true
    · exact .inl (by simp [stretches, hc.1, hc.2])
    · exact .inr ⟨[], [], rfl, by simp only [List.nil_append, stretches, if_neg hc]; rfl⟩
  | cons e rest ih =>
    obtain ⟨first, more, hm⟩ := List.exists_cons_of_ne_nil
      (stretches_ne_nil isSep (d + weight e) rest)
    simp only [List.cons_append, stretches]
    rcases ih (d + weight e) with h | ⟨front, last, hs, h⟩
    · left
      rw [h, hm]
      split <;> rfl
    · right
      rw [h, hs]
      split
      · exact ⟨[] :: front, last, rfl, rfl⟩
      · cases front with
        | nil => exact ⟨[], e :: last, rfl, rfl⟩
        | cons first more => exact ⟨(e :: first) :: more, last, rfl, rfl⟩

theorem segments_concat_blank (isSep : Char → Bool) (text : List Char) {c : Char}
    (h : isBlank c = true) : segments isSep (text ++ [c]) = segments isSep text := by
  have ht : trim [] = [] := rfl
  rcases stretches_concat isSep 0 text c with hc | ⟨front, last, hs, hc⟩
  · simp [segments, hc, ht]
  · simp [segments, hs, hc, trim_concat_blank last h]

/-- Separators and blanks before a text or after it make no segment. -/
theorem segments_gap_append {isSep : Char → Bool} {gap : List Char} (text : List Char)
    (h : ∀ c ∈ gap, isBlank c = true ∨ isSep c = true ∧ weight c = 0) :
    segments isSep (gap ++ text) = segments isSep text := by
  have hn : segments isSep [] = [] := rfl
  induction gap with
  | nil => rfl
  | cons c rest ih =>
    have hi := ih fun d hd => h d (List.mem_cons_of_mem _ hd)
    rcases h c List.mem_cons_self with hb | ⟨hs, hw⟩
    · rw [List.cons_append, segments_cons_blank isSep _ hb, hi]
    · have ha := segments_append_sep (rest ++ text) depth_nil hs hw
      rw [hn, List.nil_append, List.nil_append, hi] at ha
      exact ha

theorem segments_append_gap {isSep : Char → Bool} {text gap : List Char} (hd : depth text = 0)
    (h : ∀ c ∈ gap, isBlank c = true ∨ isSep c = true ∧ weight c = 0) :
    segments isSep (text ++ gap) = segments isSep text := by
  induction gap generalizing text with
  | nil => rw [List.append_nil]
  | cons c rest ih =>
    have hr : ∀ d ∈ rest, isBlank d = true ∨ isSep d = true ∧ weight d = 0 :=
      fun d hm => h d (List.mem_cons_of_mem _ hm)
    rcases h c List.mem_cons_self with hb | ⟨hs, hw⟩
    · have hi := @ih (text ++ [c]) (by simp [hd, weight_of_isBlank hb]) hr
      rw [List.append_assoc, List.singleton_append] at hi
      rw [hi, segments_concat_blank isSep text hb]
    · have hn : segments isSep (rest ++ []) = segments isSep [] := segments_gap_append [] hr
      rw [List.append_nil] at hn
      rw [segments_append_sep rest hd hs hw, hn]
      exact List.append_nil _

section Voices

variable {gap : List Char}

theorem gap_of_forall (h : ∀ c ∈ gap, isBlank c = true ∨ c = ',') :
    ∀ c ∈ gap, isBlank c = true ∨ (c == ',') = true ∧ weight c = 0 := by
  intro c hc
  rcases h c hc with hb | rfl
  · exact .inl hb
  · exact .inr ⟨rfl, by decide⟩

theorem voices_gap_append (text : List Char) (h : ∀ c ∈ gap, isBlank c = true ∨ c = ',') :
    voices (gap ++ text) = voices text := segments_gap_append text (gap_of_forall h)

theorem voices_append_gap {text : List Char} (hd : depth text = 0)
    (h : ∀ c ∈ gap, isBlank c = true ∨ c = ',') : voices (text ++ gap) = voices text :=
  segments_append_gap hd (gap_of_forall h)

end Voices

theorem exists_mem_stretches {isSep : Char → Bool} {d : Int} {text : List Char} {c : Char}
    (hc : c ∈ text) (hs : isSep c = false) : ∃ part ∈ stretches isSep d text, c ∈ part := by
  induction text generalizing d with
  | nil => simp at hc
  | cons e rest ih =>
    obtain ⟨first, more, hm⟩ := List.exists_cons_of_ne_nil
      (stretches_ne_nil isSep (d + weight e) rest)
    rw [stretches, hm]
    rcases List.mem_cons.mp hc with rfl | hc
    · exact ⟨c :: first, by simp [hs], List.mem_cons_self⟩
    · obtain ⟨part, hp, hcp⟩ := @ih (d + weight e) hc
      rw [hm] at hp
      split
      · exact ⟨part, List.mem_cons_of_mem _ hp, hcp⟩
      · rcases List.mem_cons.mp hp with rfl | hp
        · exact ⟨e :: part, by simp, List.mem_cons_of_mem _ hcp⟩
        · exact ⟨part, by simp [hp], hcp⟩

theorem trim_ne_nil {text : List Char} {c : Char} (hc : c ∈ text) (hb : isBlank c = false) :
    trim text ≠ [] := by
  intro ht
  rw [trim_eq_rdropWhile, List.rdropWhile_eq_nil_iff] at ht
  rw [← List.takeWhile_append_dropWhile (p := isBlank) (l := text), List.mem_append] at hc
  have hbc : isBlank c = true := hc.elim List.mem_takeWhile_imp (ht c)
  exact Bool.false_ne_true (hb.symm.trans hbc)

theorem segments_ne_nil {isSep : Char → Bool} {text : List Char} {c : Char} (hc : c ∈ text)
    (hb : isBlank c = false) (hs : isSep c = false) : segments isSep text ≠ [] := by
  obtain ⟨part, hp, hcp⟩ := @exists_mem_stretches isSep 0 text c hc hs
  refine List.ne_nil_of_mem (List.mem_filter.mpr ⟨List.mem_map.mpr ⟨part, hp, rfl⟩, ?_⟩)
  simpa using trim_ne_nil hcp hb

theorem voices_ne_nil {text : List Char} {c : Char} (hc : c ∈ text) (hb : isBlank c = false)
    (hn : c ≠ ',') : voices text ≠ [] := segments_ne_nil hc hb (beq_false_of_ne hn)

theorem trim_subset (text : List Char) : trim text ⊆ text := by
  rw [trim_eq_rdropWhile]
  exact ((List.rdropWhile_prefix _ _).sublist.trans (List.dropWhile_sublist _)).subset

theorem not_isSep_of_mem_segments {isSep : Char → Bool} {text part : List Char}
    (hw : ∀ c ∈ text, weight c = 0) (hp : part ∈ segments isSep text) :
    ∀ c ∈ part, isSep c = false := by
  have hs : ∀ stretch ∈ stretches isSep 0 text, ∀ c ∈ stretch, isSep c = false := by
    clear hp
    induction text with
    | nil => simp [stretches]
    | cons e rest ih =>
      have hi := ih fun c hc => hw c (List.mem_cons_of_mem _ hc)
      obtain ⟨first, more, hm⟩ := List.exists_cons_of_ne_nil (stretches_ne_nil isSep 0 rest)
      rw [hm] at hi
      obtain ⟨hf, hr⟩ := List.forall_mem_cons.mp hi
      simp only [stretches, hw e List.mem_cons_self, Int.add_zero, hm, true_and]
      split
      · exact List.forall_mem_cons.mpr ⟨by simp, hi⟩
      next he =>
        exact List.forall_mem_cons.mpr
          ⟨List.forall_mem_cons.mpr ⟨Bool.eq_false_iff.mpr he, hf⟩, hr⟩
  obtain ⟨hm, _⟩ := List.mem_filter.mp hp
  obtain ⟨stretch, hst, rfl⟩ := List.mem_map.mp hm
  exact fun c hc => hs stretch hst c (trim_subset stretch hc)

section Joined

variable {sep : Char} {gap : List Char} {texts : List (List Char)}

theorem segments_intercalate {isSep : Char → Bool} (hs : isSep sep = true) (hw : weight sep = 0)
    (hg : ∀ c ∈ gap, isBlank c = true) (hd : ∀ text ∈ texts.dropLast, depth text = 0) :
    segments isSep ((sep :: gap).intercalate texts) = texts.flatMap (segments isSep) := by
  induction texts with
  | nil => rfl
  | cons first more ih =>
    cases more with
    | nil => simp
    | cons second more =>
      obtain ⟨hf, hm⟩ := List.forall_mem_cons.mp hd
      rw [List.intercalate_cons_cons, List.append_assoc, List.cons_append,
        segments_append_sep _ hf hs hw, segments_gap_append _ fun c hc => .inl (hg c hc), ih hm]
      rfl

theorem balanced_intercalate (hw : weight sep = 0) (hg : ∀ c ∈ gap, isBlank c = true)
    (hb : ∀ text ∈ texts, Balanced text) : Balanced ((sep :: gap).intercalate texts) := by
  have hs : Balanced (sep :: gap) := balanced_of_weight fun c hc => by
    rcases List.mem_cons.mp hc with rfl | hc
    · exact hw
    · exact weight_of_isBlank (hg c hc)
  induction texts with
  | nil => exact balanced_of_weight (by simp)
  | cons first more ih =>
    have hf := hb first List.mem_cons_self
    have hi := ih fun text ht => hb text (List.mem_cons_of_mem _ ht)
    cases more with
    | nil => simpa using hf
    | cons second more =>
      rw [List.intercalate_cons_cons]
      exact (hf.append hs).append hi

theorem whole_intercalate {isSep : Char → Bool} (hn : ∀ c ∈ sep :: gap, isSep c = false)
    (hz : depth (sep :: gap) = 0) (hw : ∀ text ∈ texts, Whole isSep text)
    (hd : ∀ text ∈ texts, depth text = 0) : Whole isSep ((sep :: gap).intercalate texts) := by
  have hs : Whole isSep (sep :: gap) := stretches_of_forall hn 0
  induction texts with
  | nil => rfl
  | cons first more ih =>
    have hf := hw first List.mem_cons_self
    have hfd := hd first List.mem_cons_self
    have hi := ih (fun text ht => hw text (List.mem_cons_of_mem _ ht))
      fun text ht => hd text (List.mem_cons_of_mem _ ht)
    cases more with
    | nil => simpa using hf
    | cons second more =>
      rw [List.intercalate_cons_cons]
      exact (hf.append hfd hs).append (by rw [depth_append, hfd, hz, Int.add_zero]) hi

theorem trimmed_intercalate (hn : texts ≠ []) (ht : ∀ text ∈ texts, Trimmed text) :
    Trimmed ((sep :: gap).intercalate texts) := by
  induction texts with
  | nil => exact absurd rfl hn
  | cons first more ih =>
    have hf := ht first List.mem_cons_self
    cases more with
    | nil => simpa using hf
    | cons second more =>
      rw [List.intercalate_cons_cons]
      exact hf.append _ (ih (by simp) fun text hm => ht text (List.mem_cons_of_mem _ hm))

end Joined

end StepSequencer
