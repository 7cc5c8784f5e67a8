import StepSequencer.Layer
import StepSequencer.Proofs.RespacedParts
import StepSequencer.Proofs.Subdivision

/-! The layers of respaced texts are the same. Where brackets do not balance, a single word may hold
blanks, so the trees that are read may differ in their words. They fill each span alike. -/

namespace StepSequencer

open List (Forall₂)

/-- The trees fill each span with the same steps. -/
def Token.SameSteps (first second : Token) : Prop :=
  ∀ width, first.subdivide width = second.subdivide width

namespace Token.SameSteps

variable {first second : Token} {elements others : List Token}

theorem repeated (h : first.SameSteps second) (count : Int) :
    (Token.repeated first count).SameSteps (.repeated second count) := by
  intro width
  have hf : first.subdivide = second.subdivide := funext h
  rw [Token.subdivide, Token.subdivide, hf]

theorem bracketed (h : first.SameSteps second) :
    (Token.bracketed first).SameSteps (.bracketed second) := h

theorem alternation (h : Forall₂ SameSteps elements others) :
    (Token.alternation elements).SameSteps (.alternation others) := by
  intro width
  cases h with
  | nil => rfl
  | cons hf _ => exact hf width

theorem subdivideParts_eq (h : Forall₂ SameSteps elements others) (width parts index : Nat) :
    Token.subdivideParts elements width parts index =
      Token.subdivideParts others width parts index := by
  induction h generalizing index with
  | nil => rfl
  | cons hf _ ih => rw [Token.subdivideParts, Token.subdivideParts, hf, ih]

theorem sequence (h : Forall₂ SameSteps elements others) :
    (Token.sequence elements).SameSteps (.sequence others) := by
  intro width
  have hn : elements = [] ↔ others = [] := by
    rw [← List.length_eq_zero_iff, h.length_eq, List.length_eq_zero_iff]
  rw [Token.subdivide_sequence, Token.subdivide_sequence, h.length_eq,
    subdivideParts_eq h]
  simp only [hn]

end Token.SameSteps

section Reading

variable {first second : List Char}

theorem Respaced.elements (h : Respaced first second) :
    Forall₂ Respaced (elements first) (elements second) :=
  h.forall₂_segments fun _ hc => hc

theorem forall₂_map_read {texts others : List (List Char)} (h : Forall₂ Respaced texts others)
    (hr : ∀ text ∈ texts, ∀ other, Respaced text other →
      (Token.read text).SameSteps (Token.read other)) :
    Forall₂ Token.SameSteps (texts.map Token.read) (others.map Token.read) := by
  induction h with
  | nil => exact .nil
  | cons hf _ ih =>
    exact .cons (hr _ List.mem_cons_self _ hf)
      (ih fun text ht => hr text (List.mem_cons_of_mem _ ht))

/-- The same rule, with parts that are respaced. The word itself may differ. -/
inductive Form.Respaced : Form → Form → Prop
  | rest : Form.Respaced .rest .rest
  | repeated {base other : List Char} (digits : List Char) (h : StepSequencer.Respaced base other) :
    Form.Respaced (.repeated base digits) (.repeated other digits)
  | bracketed {inner other : List Char} (h : StepSequencer.Respaced inner other) :
    Form.Respaced (.bracketed inner) (.bracketed other)
  | alternation {choices others : List (List Char)}
    (h : Forall₂ StepSequencer.Respaced choices others) :
    Form.Respaced (.alternation choices) (.alternation others)
  | sequence {elements others : List (List Char)}
    (h : Forall₂ StepSequencer.Respaced elements others) :
    Form.Respaced (.sequence elements) (.sequence others)
  | word (text other : List Char) : Form.Respaced (.word text) (.word other)

/-- Each test for a form has the same outcome for both texts. -/
theorem Respaced.formOf (h : Respaced first second) : (formOf first).Respaced (formOf second) := by
  have ht := h.trimmed
  rw [StepSequencer.formOf, StepSequencer.formOf, ← ht.isEmpty_eq, ← h.isRest_trim_eq]
  by_cases he : ((trim first).isEmpty || isRest (trim first)) = true
  · rw [if_pos he, if_pos he]
    exact .rest
  rw [if_neg he, if_neg he]
  obtain ⟨hf, hs⟩ | ⟨base, other, digits, hf, hs, hb⟩ := ht.repeatSuffix
  case inr =>
    rw [hf, hs]
    exact .repeated digits hb
  have hsq := ht.enclosed_eq (show weight '[' = 1 by decide) (show weight ']' = -1 by decide)
  have han := ht.enclosed_eq (show weight '<' = 1 by decide) (show weight '>' = -1 by decide)
  rw [hf, hs, ← hsq, ← han]
  by_cases hb : enclosed '[' ']' (trim first) = true
  · simp only [hb, if_true]
    exact .bracketed (ht.of_enclosed (by decide) (by decide) hb).2
  by_cases ha : enclosed '<' '>' (trim first) = true
  · simp only [hb, ha, if_true]
    exact .alternation (ht.of_enclosed (by decide) (by decide) ha).2.elements
  have hm := ht.elements
  simp only [hb, ha, ← hm.length_eq]
  by_cases hc : 2 ≤ (StepSequencer.elements (trim first)).length
  · rw [if_pos hc, if_pos hc]
    exact .sequence hm
  · rw [if_neg hc, if_neg hc]
    exact .word _ _

theorem Respaced.sameSteps_read (h : Respaced first second) :
    (Token.read first).SameSteps (Token.read second) := by
  induction hn : first.length using Nat.strong_induction_on generalizing first second with
  | _ n ih =>
    subst hn
    have hi : ∀ part ∈ (StepSequencer.formOf first).parts, ∀ other, Respaced part other →
        (Token.read part).SameSteps (Token.read other) :=
      fun part hp other hr => ih _ (length_lt_of_mem_parts hp) hr rfl
    have hf := h.formOf
    rw [Token.read_eq first, Token.read_eq second]
    generalize StepSequencer.formOf first = form at hi hf ⊢
    generalize StepSequencer.formOf second = other at hf ⊢
    cases hf with
    | rest | word => exact fun _ => rfl
    | repeated digits hb => exact (hi _ (List.mem_singleton_self _) _ hb).repeated _
    | bracketed hb => exact (hi _ (List.mem_singleton_self _) _ hb).bracketed
    | alternation hm => exact .alternation (forall₂_map_read hm hi)
    | sequence hm => exact .sequence (forall₂_map_read hm hi)

end Reading

section Naming

variable {first second : List Char}

theorem Respaced.unbracketed (h : Respaced first second) :
    Respaced (unbracketed first) (unbracketed second) := by
  have hu : ∀ {gap : List Char}, Gap gap → StepSequencer.unbracketed gap = gap :=
    fun hg => unbracketed_of_weight fun c hc => weight_of_isBlank (hg.blank c hc)
  induction h with
  | nil => exact .nil
  | cons c _ ih => exact .cons _ ih
  | gap hg ho _ ih =>
    rw [unbracketed_append, unbracketed_append, hu hg, hu ho]
    exact .gap hg ho ih

theorem Respaced.any_isDigit_eq (h : Respaced first second) :
    first.head?.any isDigit = second.head?.any isDigit := by
  cases h with
  | nil => rfl
  | cons c _ => rfl
  | gap hg ho _ =>
    obtain ⟨c, rest, rfl, hc⟩ := hg.exists_cons
    obtain ⟨d, more, rfl, hd⟩ := ho.exists_cons
    simp [not_isDigit_of_isBlank hc, not_isDigit_of_isBlank hd]

theorem withoutCounts_blank {c : Char} (h : isBlank c = true) (inCount : Bool)
    (text : List Char) : withoutCounts inCount (c :: text) = c :: withoutCounts false text := by
  have hs : c ≠ '*' := by
    rintro rfl
    exact absurd h (by decide)
  simp [withoutCounts, not_isDigit_of_isBlank h, hs]

theorem withoutCounts_blanks {gap : List Char} (h : ∀ c ∈ gap, isBlank c = true)
    (text : List Char) :
    withoutCounts false (gap ++ text) = gap ++ withoutCounts false text := by
  induction gap with
  | nil => rfl
  | cons c rest ih =>
    obtain ⟨hc, hr⟩ := List.forall_mem_cons.mp h
    rw [List.cons_append, withoutCounts_blank hc, ih hr, List.cons_append]

/-- The first blank of a gap ends a count before it. -/
theorem withoutCounts_gap {gap : List Char} (h : Gap gap) (inCount : Bool) (text : List Char) :
    withoutCounts inCount (gap ++ text) = gap ++ withoutCounts false text := by
  obtain ⟨c, rest, rfl, hc⟩ := h.exists_cons
  have hr : ∀ d ∈ rest, isBlank d = true := fun d hd => h.blank d (List.mem_cons_of_mem c hd)
  rw [List.cons_append, withoutCounts_blank hc, withoutCounts_blanks hr, List.cons_append]

theorem Respaced.withoutCounts (h : Respaced first second) (inCount : Bool) :
    Respaced (withoutCounts inCount first) (withoutCounts inCount second) := by
  induction h generalizing inCount with
  | nil => exact .nil
  | cons c hm ih =>
    simp only [StepSequencer.withoutCounts, hm.any_isDigit_eq]
    split
    · exact ih true
    · split
      · exact ih true
      · exact .cons c (ih false)
  | gap hg ho _ ih =>
    rw [withoutCounts_gap hg, withoutCounts_gap ho]
    exact .gap hg ho (ih false)

theorem Respaced.soundWords_eq (h : Respaced first second) :
    soundWords first = soundWords second := (h.unbracketed.withoutCounts false).words_eq

theorem Respaced.soundName_eq (h : Respaced first second) : soundName first = soundName second := by
  rw [StepSequencer.soundName_eq, StepSequencer.soundName_eq, h.soundWords_eq]

end Naming

theorem Respaced.ofText_eq {first second : List Char} (h : Respaced first second)
    (stepCount : Int) :
    Layer.ofText first stepCount = Layer.ofText second stepCount := by
  have hs : stepsOfText first stepCount = stepsOfText second stepCount := by
    rw [stepsOfText, stepsOfText, Token.steps, Token.steps, Token.expand_eq_subdivide,
      Token.expand_eq_subdivide, h.sameSteps_read]
  rw [Layer.ofText, Layer.ofText, h.soundName_eq, hs]

/-- The blanks around a text and the extent of each gap within it leave its layers as they are. -/
theorem layersOfText_eq_of_respaced {first second : List Char}
    (h : Respaced (trim first) (trim second)) (stepCount : Int) :
    layersOfText first stepCount = layersOfText second stepCount := by
  have hc : ∀ c, isBlank c = true → (c == ',') = false := by
    intro c hb
    refine beq_false_of_ne ?_
    rintro rfl
    exact absurd hb (by decide)
  have hv := h.forall₂_segments hc
  rw [segments_trim, segments_trim] at hv
  have hl : Forall₂ (· = ·) ((voices first).map (Layer.ofText · stepCount))
      ((voices second).map (Layer.ofText · stepCount)) := by
    rw [List.forall₂_map_left_iff, List.forall₂_map_right_iff]
    exact hv.imp fun _ _ hr => hr.ofText_eq stepCount
  rwa [List.forall₂_eq_eq_eq] at hl

/-- Of the last voice, whose bracket is never closed, a single word with blanks in it is read. -/
theorem layersOfText_eq_of_respaced_unclosed :
    Respaced (trim " bd [sn  <hh oh>]*2 ,\tcp  -\n~, [x  y\n".toList)
        (trim "bd\u2003[sn\t<hh\u00a0\noh>]*2\n,  cp\r\n- ~,\t[x\u3000y".toList) ∧
      layersOfText " bd [sn  <hh oh>]*2 ,\tcp  -\n~, [x  y\n".toList 7 =
        layersOfText "bd\u2003[sn\t<hh\u00a0\noh>]*2\n,  cp\r\n- ~,\t[x\u3000y".toList 7 := by
  have h : Respaced (trim " bd [sn  <hh oh>]*2 ,\tcp  -\n~, [x  y\n".toList)
      (trim "bd\u2003[sn\t<hh\u00a0\noh>]*2\n,  cp\r\n- ~,\t[x\u3000y".toList) := by decide
  exact ⟨h, layersOfText_eq_of_respaced h 7⟩

end StepSequencer
