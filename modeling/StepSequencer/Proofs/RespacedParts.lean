import StepSequencer.Proofs.Respacing

/-! Reading respaced texts. Whether a text is a rest, ends in a count or stands in brackets does not
depend on its gaps, and what it is cut into is respaced again. -/

namespace StepSequencer

section Rest

/-- Trimmed, a rest has no blank at all. The line end that may follow its mark is blank. -/
theorem not_blank_of_isRest {text : List Char} (h : isRest text = true) (ht : Trimmed text) :
    ∀ c ∈ text, isBlank c = false := by
  have hl : text.getLast? ≠ some '\n' := by
    intro he
    exact absurd (ht.last '\n' he) (by decide)
  simp only [isRest, dropLineEnd, if_neg hl, Bool.or_eq_true, Bool.and_eq_true, beq_iff_eq,
    List.all_eq_true] at h
  rcases h with rfl | ⟨_, h⟩
  · exact List.forall_mem_singleton.mpr (by decide)
  · intro c hc
    rw [h c hc]
    decide

namespace Respaced

variable {first second : List Char}

theorem trim_eq_of_isRest (h : Respaced first second) (hr : isRest (trim first) = true) :
    trim first = trim second := by
  have hn : trim first ≠ [] := by
    intro he
    rw [he] at hr
    exact absurd hr (by decide)
  exact h.trimmed.eq_of_not_blank (not_blank_of_isRest hr (trimmed_trim hn))

theorem isRest_trim_eq (h : Respaced first second) :
    isRest (trim first) = isRest (trim second) := by
  refine Bool.eq_iff_iff.mpr ⟨fun hr => ?_, fun hr => ?_⟩
  · rwa [← h.trim_eq_of_isRest hr]
  · rwa [← h.symm.trim_eq_of_isRest hr]

end Respaced

end Rest

section Count

theorem not_isDigit_of_isBlank {c : Char} (h : isBlank c = true) : isDigit c = false := by
  have hz : ∀ start ∈ scriptZeros, ∀ k < 10, isBlank (Char.ofNat (start + k)) = false := by decide
  rw [Bool.eq_false_iff]
  intro hd
  obtain ⟨start, hs, hp⟩ : ∃ start ∈ scriptZeros, start ≤ c.toNat ∧ c.toNat < start + 10 := by
    simpa [isDigit, digitValue?] using hd
  have hb := hz start hs (c.toNat - start) (by omega)
  rw [Nat.add_sub_cancel' hp.1, Char.ofNat_toNat, h] at hb
  exact Bool.noConfusion hb

namespace Respaced

variable {first second : List Char}

theorem of_count {front digits : List Char} (h : Respaced (front ++ '*' :: digits) second)
    (hd : ∀ c ∈ digits, isDigit c = true) :
    ∃ other, second = other ++ '*' :: digits ∧ Respaced front other := by
  refine h.of_append (List.forall_mem_cons.mpr ⟨by decide, fun c hc => ?_⟩)
  cases hb : isBlank c with
  | false => rfl
  | true => exact absurd (hd c hc) (by simp [not_isDigit_of_isBlank hb])

theorem endsInCount (h : Respaced first second) (he : EndsInCount first) :
    EndsInCount second := by
  obtain ⟨front, digits, hn, hd, rfl⟩ := he
  obtain ⟨other, rfl, _⟩ := h.of_count hd
  exact ⟨other, digits, hn, hd, rfl⟩

/-- Either text has a count at its end when the other has, and the two counts are the same. -/
theorem repeatSuffix (h : Respaced first second) :
    (repeatSuffix? first = none ∧ repeatSuffix? second = none) ∨
      ∃ base other digits, repeatSuffix? first = some (base, digits) ∧
        repeatSuffix? second = some (other, digits) ∧ Respaced base other := by
  by_cases he : EndsInCount first
  · obtain ⟨base, digits, hn, hd, rfl⟩ := he
    obtain ⟨other, rfl, ho⟩ := h.of_count hd
    by_cases hb : base = []
    · have hz : other = [] := by simpa [hb] using ho.isEmpty_eq
      subst hb hz
      cases hs : repeatSuffix? ([] ++ '*' :: digits) with
      | none => exact .inl ⟨rfl, rfl⟩
      | some found => exact .inr ⟨found.1, found.1, found.2, rfl, rfl, refl _⟩
    · have hz : other ≠ [] := by
        intro hz
        exact hb (by simpa [hz] using ho.isEmpty_eq)
      exact .inr ⟨base, other, _, repeatSuffix?_append hb hn hd, repeatSuffix?_append hz hn hd, ho⟩
  · have hs : ¬ EndsInCount second := fun hs => he (h.symm.endsInCount hs)
    exact .inl ⟨repeatSuffix?_eq_none he, repeatSuffix?_eq_none hs⟩

end Respaced

end Count

section Brackets

theorem Gap.depth_eq {gap : List Char} (h : Gap gap) : depth gap = 0 := depth_of_blank h.blank

theorem closesAtEnd_blanks {gap : List Char} (h : ∀ c ∈ gap, isBlank c = true) {d : Int}
    (hd : d ≠ 0) (text : List Char) : closesAtEnd d (gap ++ text) = closesAtEnd d text := by
  induction gap with
  | nil => rfl
  | cons c rest ih =>
    obtain ⟨hc, hr⟩ := List.forall_mem_cons.mp h
    simp [closesAtEnd, weight_of_isBlank hc, hd, ih hr]

namespace Respaced

variable {first second : List Char}

theorem closesAtEnd_eq (h : Respaced first second) {d : Int} (hd : d ≠ 0) :
    closesAtEnd d first = closesAtEnd d second := by
  induction h generalizing d with
  | nil => rfl
  | cons c hm ih =>
    rw [closesAtEnd, closesAtEnd, hm.isEmpty_eq]
    by_cases hz : d + weight c = 0
    · simp [hz]
    · simp [hz, ih hz]
  | gap hg ho _ ih => rw [closesAtEnd_blanks hg.blank hd, closesAtEnd_blanks ho.blank hd, ih hd]

theorem of_enclosed {opening closing : Char} (ho : weight opening = 1) (hc : weight closing = -1)
    (h : Respaced first second) (he : enclosed opening closing first = true) :
    enclosed opening closing second = true ∧ Respaced (inside first) (inside second) := by
  have hi := eq_of_enclosed he
  rw [hi] at he h
  obtain ⟨rest, rfl, hr⟩ := h.of_cons (not_isBlank_of_weight (by simp [ho]))
  obtain ⟨inner, rfl, hm⟩ := hr.of_concat (not_isBlank_of_weight (by simp [hc]))
  have hx : Respaced (inside first ++ [closing]) (inner ++ [closing]) := hm.append (refl _)
  rw [← List.cons_append, inside_enclose]
  rw [enclosed_eq_closesAtEnd ho, hx.closesAtEnd_eq (by decide)] at he
  exact ⟨(enclosed_eq_closesAtEnd ho).trans he, hm⟩

theorem enclosed_eq {opening closing : Char} (ho : weight opening = 1) (hc : weight closing = -1)
    (h : Respaced first second) :
    enclosed opening closing first = enclosed opening closing second :=
  Bool.eq_iff_iff.mpr
    ⟨fun he => (h.of_enclosed ho hc he).1, fun he => (h.symm.of_enclosed ho hc he).1⟩

end Respaced

end Brackets

section Segments

variable {isSep : Char → Bool} {value : Bool}

theorem segments_append_blanks {gap : List Char} (h : ∀ c ∈ gap, isBlank c = true)
    (text : List Char) : segments isSep (text ++ gap) = segments isSep text := by
  induction gap generalizing text with
  | nil => rw [List.append_nil]
  | cons c rest ih =>
    obtain ⟨hc, hr⟩ := List.forall_mem_cons.mp h
    rw [List.append_cons, ih hr, segments_concat_blank isSep text hc]

theorem segments_trim (text : List Char) : segments isSep (trim text) = segments isSep text := by
  obtain ⟨lead, trail, hl, ht, he⟩ := exists_trim text
  conv_rhs => rw [he, segments_gap_append _ fun c hc => .inl (hl c hc), segments_append_blanks ht]

/-- The trimmed texts, those with nothing but blanks left out. -/
def kept (texts : List (List Char)) : List (List Char) := (texts.map trim).filter (!·.isEmpty)

/-- Cuts of respaced texts: the first stretches are respaced, which goes on as they grow, and so are
the later ones where they are kept. -/
def Recut : List (List Char) → List (List Char) → Prop
  | first :: more, second :: others =>
    Respaced first second ∧ List.Forall₂ Respaced (kept more) (kept others)
  | _, _ => False

theorem kept_cons_nil (texts : List (List Char)) : kept ([] :: texts) = kept texts := rfl

theorem kept_replicate_append (n : Nat) (texts : List (List Char)) :
    kept (List.replicate n [] ++ texts) = kept texts := by
  induction n with
  | zero => rfl
  | succ n ih => rw [List.replicate_succ, List.cons_append, kept_cons_nil, ih]

namespace Recut

variable {texts others : List (List Char)}

theorem forall₂_kept (h : Recut texts others) :
    List.Forall₂ Respaced (kept texts) (kept others) := by
  cases texts with
  | nil => exact h.elim
  | cons first more =>
    cases others with
    | nil => exact h.elim
    | cons second others =>
      obtain ⟨hr, hm⟩ := h
      have he := hr.trimmed.isEmpty_eq
      simp only [kept, List.map_cons, List.filter_cons, he]
      split
      · exact .cons hr.trimmed hm
      · exact hm

theorem modifyHead (h : Recut texts others) {front back : List Char} (hr : Respaced front back) :
    Recut (texts.modifyHead (front ++ ·)) (others.modifyHead (back ++ ·)) := by
  cases texts with
  | nil => exact h.elim
  | cons first more =>
    cases others with
    | nil => exact h.elim
    | cons second others => exact ⟨hr.append h.1, h.2⟩

/-- Each of several separators in a row cuts off a stretch that is empty. -/
theorem replicate_append (h : Recut texts others) (n m : Nat) :
    Recut (List.replicate (n + 1) [] ++ texts) (List.replicate (m + 1) [] ++ others) := by
  refine ⟨.nil, ?_⟩
  change List.Forall₂ Respaced (kept (List.replicate n [] ++ texts))
    (kept (List.replicate m [] ++ others))
  rw [kept_replicate_append, kept_replicate_append]
  exact h.forall₂_kept

end Recut

theorem stretches_blanks {gap : List Char} (h : ∀ c ∈ gap, isBlank c = true) {d : Int}
    (hd : d ≠ 0) : stretches isSep d gap = [gap] := by
  induction gap with
  | nil => rfl
  | cons c rest ih =>
    obtain ⟨hc, hr⟩ := List.forall_mem_cons.mp h
    simp [stretches, weight_of_isBlank hc, hd, ih hr]

theorem stretches_blank_seps {gap : List Char} (h : ∀ c ∈ gap, isBlank c = true)
    (hs : ∀ c ∈ gap, isSep c = true) (text : List Char) :
    stretches isSep 0 (gap ++ text) =
      List.replicate gap.length [] ++ stretches isSep 0 text := by
  induction gap with
  | nil => rfl
  | cons c rest ih =>
    obtain ⟨hc, hr⟩ := List.forall_mem_cons.mp h
    obtain ⟨hsc, hsr⟩ := List.forall_mem_cons.mp hs
    simp [stretches, weight_of_isBlank hc, hsc, ih hr hsr, List.replicate_succ]

/-- A gap at depth zero may be where the text is cut. Else it stays within a stretch. -/
theorem Respaced.recut (hs : ∀ c, isBlank c = true → isSep c = value)
    {first second : List Char} (h : Respaced first second) (d : Int) :
    Recut (stretches isSep d first) (stretches isSep d second) := by
  induction h generalizing d with
  | nil => exact ⟨.nil, .nil⟩
  | cons c _ ih =>
    have hi := ih (d + weight c)
    simp only [stretches]
    split
    · exact hi.replicate_append 0 0
    · exact hi.modifyHead (refl [c])
  | @gap gap other first second hg ho _ ih =>
    by_cases hz : d = 0 ∧ value = true
    · obtain ⟨rfl, rfl⟩ := hz
      rw [stretches_blank_seps hg.blank fun c hc => hs c (hg.blank c hc),
        stretches_blank_seps ho.blank fun c hc => hs c (ho.blank c hc)]
      obtain ⟨n, hn⟩ := Nat.exists_eq_add_one_of_ne_zero (mt List.length_eq_zero_iff.mp hg.ne_nil)
      obtain ⟨m, hm⟩ := Nat.exists_eq_add_one_of_ne_zero (mt List.length_eq_zero_iff.mp ho.ne_nil)
      rw [hn, hm]
      exact (ih 0).replicate_append n m
    · have hw : ∀ {gap : List Char}, Gap gap → stretches isSep d gap = [gap] := by
        intro gap hg
        by_cases hd : d = 0
        · have hv : value = false := by simpa [hd] using hz
          exact stretches_of_forall (fun c hc => (hs c (hg.blank c hc)).trans hv) d
        · exact stretches_blanks hg.blank hd
      rw [stretches_append (hw hg), stretches_append (hw ho), hg.depth_eq, ho.depth_eq,
        Int.add_zero]
      exact (ih d).modifyHead (of_gaps hg ho)

theorem Respaced.forall₂_segments (hs : ∀ c, isBlank c = true → isSep c = value)
    {first second : List Char} (h : Respaced first second) :
    List.Forall₂ Respaced (segments isSep first) (segments isSep second) :=
  (h.recut hs 0).forall₂_kept

end Segments

end StepSequencer
