import StepSequencer.Pattern.Nesting
import Mathlib.Algebra.Order.Group.Int
import Mathlib.Data.List.Basic

/-! Bracket depth of a text. A balanced text between a pair of brackets is one group, and a cut at
depth zero parts the scan of a text into two that know nothing of each other. -/

namespace StepSequencer

def depth : List Char → Int
  | [] => 0
  | c :: rest => weight c + depth rest

@[simp]
theorem depth_nil : depth [] = 0 := rfl

@[simp]
theorem depth_cons (c : Char) (rest : List Char) : depth (c :: rest) = weight c + depth rest := rfl

@[simp]
theorem depth_append (front back : List Char) :
    depth (front ++ back) = depth front + depth back := by
  induction front with
  | nil => exact (Int.zero_add _).symm
  | cons c rest ih => rw [List.cons_append, depth_cons, depth_cons, ih, Int.add_assoc]

/-- How many brackets of all kinds the text opens. -/
def opened (text : List Char) : Nat := text.countP (· ∈ ['[', '<', '{'])

def closed (text : List Char) : Nat := text.countP (· ∈ [']', '>', '}'])

theorem depth_eq_sub (text : List Char) : depth text = opened text - closed text := by
  induction text with
  | nil => rfl
  | cons c rest ih =>
    have hw : weight c = (if c ∈ ['[', '<', '{'] then 1 else 0) -
        (if c ∈ [']', '>', '}'] then 1 else 0) := by
      simp only [weight, List.mem_cons, List.not_mem_nil, or_false]
      split
      next ho => rcases ho with rfl | rfl | rfl <;> decide
      next => split <;> rfl
    rw [depth_cons, ih, hw, opened, opened, closed, closed, List.countP_cons, List.countP_cons]
    simp only [decide_eq_true_eq]
    split <;> split <;> omega

theorem depth_eq_zero_iff {text : List Char} : depth text = 0 ↔ opened text = closed text := by
  rw [depth_eq_sub]
  omega

theorem neg_one_le_weight (c : Char) : -1 ≤ weight c := by
  simp only [weight]
  split
  · omega
  · split <;> omega

theorem weight_of_isBlank {c : Char} (h : isBlank c = true) : weight c = 0 := by
  simp only [weight]
  split
  next hc => rcases hc with rfl | rfl | rfl <;> simp [isBlank] at h
  next =>
    split
    next hc => rcases hc with rfl | rfl | rfl <;> simp [isBlank] at h
    next => rfl

theorem not_isBlank_of_weight {c : Char} (h : weight c ≠ 0) : isBlank c = false := by
  cases hb : isBlank c with
  | false => rfl
  | true => exact absurd (weight_of_isBlank hb) h

/-- The text closes just the brackets that it opens, each after its opening. -/
structure Balanced (text : List Char) : Prop where
  depth_nonneg : ∀ front, front <+: text → 0 ≤ depth front
  depth_eq : depth text = 0

theorem depth_eq_zero {text : List Char} (h : ∀ c ∈ text, weight c = 0) : depth text = 0 := by
  induction text with
  | nil => rfl
  | cons c rest ih =>
    rw [depth_cons, h c List.mem_cons_self, ih fun d hd => h d (List.mem_cons_of_mem _ hd),
      Int.add_zero]

theorem depth_of_blank {text : List Char} (h : ∀ c ∈ text, isBlank c = true) : depth text = 0 :=
  depth_eq_zero fun c hc => weight_of_isBlank (h c hc)

theorem balanced_of_weight {text : List Char} (h : ∀ c ∈ text, weight c = 0) : Balanced text where
  depth_nonneg := fun _ hf => (depth_eq_zero fun c hc => h c (hf.subset hc)).ge
  depth_eq := depth_eq_zero h

theorem balanced_iff {text : List Char} :
    Balanced text ↔
      (∀ front, front <+: text → closed front ≤ opened front) ∧ opened text = closed text := by
  constructor
  · intro h
    refine ⟨fun front hf => ?_, depth_eq_zero_iff.mp h.depth_eq⟩
    have hd := h.depth_nonneg front hf
    rw [depth_eq_sub] at hd
    omega
  · rintro ⟨hf, he⟩
    refine ⟨fun front hp => ?_, depth_eq_zero_iff.mpr he⟩
    have hc := hf front hp
    rw [depth_eq_sub]
    omega

theorem Balanced.append {front back : List Char} (hf : Balanced front) (hb : Balanced back) :
    Balanced (front ++ back) where
  depth_nonneg := by
    rintro part ⟨rest, he⟩
    rcases List.append_eq_append_iff.mp he with ⟨more, rfl, _⟩ | ⟨more, rfl, rfl⟩
    · exact hf.depth_nonneg part (List.prefix_append _ _)
    · rw [depth_append, hf.depth_eq, Int.zero_add]
      exact hb.depth_nonneg more (List.prefix_append _ _)
  depth_eq := by rw [depth_append, hf.depth_eq, hb.depth_eq, Int.add_zero]

theorem stretches_append_sep {isSep : Char → Bool} {d : Int} {front : List Char} {sep : Char}
    (back : List Char) (hd : d + depth front = 0) (hs : isSep sep = true)
    (hw : weight sep = 0) :
    stretches isSep d (front ++ sep :: back) =
      stretches isSep d front ++ stretches isSep 0 back := by
  induction front generalizing d with
  | nil =>
    have hz : d = 0 := by simpa using hd
    simp [stretches, hz, hw, hs]
  | cons c rest ih =>
    have hr := @ih (d + weight c) (by rw [← hd, depth_cons, Int.add_assoc])
    obtain ⟨first, more, hm⟩ := List.exists_cons_of_ne_nil
      (stretches_ne_nil isSep (d + weight c) rest)
    simp only [List.cons_append, stretches, hr, hm]
    split <;> rfl

theorem stretches_of_forall {isSep : Char → Bool} {text : List Char}
    (h : ∀ c ∈ text, isSep c = false) (d : Int) : stretches isSep d text = [text] := by
  induction text generalizing d with
  | nil => rfl
  | cons c rest ih =>
    simp [stretches, h c List.mem_cons_self, ih fun d hd => h d (List.mem_cons_of_mem _ hd)]

theorem stretches_of_pos {isSep : Char → Bool} {d : Int} {text : List Char}
    (h : ∀ front, front <+: text → 0 < d + depth front) : stretches isSep d text = [text] := by
  induction text generalizing d with
  | nil => rfl
  | cons c rest ih =>
    have hc := h [c] (List.prefix_append [c] rest)
    have hr := @ih (d + weight c) fun front hf => by
      simpa [Int.add_assoc] using h (c :: front) (List.cons_prefix_cons.mpr ⟨rfl, hf⟩)
    simp only [depth_cons, depth_nil, Int.add_zero] at hc
    simp [stretches, hr, hc.ne']

theorem stretches_append {isSep : Char → Bool} {d : Int} {front : List Char}
    (h : stretches isSep d front = [front]) (back : List Char) :
    stretches isSep d (front ++ back) =
      (stretches isSep (d + depth front) back).modifyHead (front ++ ·) := by
  induction front generalizing d with
  | nil => cases hs : stretches isSep d back <;> simp [hs]
  | cons c rest ih =>
    simp only [stretches] at h
    split at h
    · simp at h
    next hn =>
      have hr : stretches isSep (d + weight c) rest = [rest] := by
        cases hs : stretches isSep (d + weight c) rest with
        | nil => exact absurd hs (stretches_ne_nil _ _ _)
        | cons first more => simpa [hs] using h
      simp [stretches, hn, ih hr, Int.add_assoc, Function.comp_def]

/-- No separator of the text stands outside its brackets. -/
def Whole (isSep : Char → Bool) (text : List Char) : Prop := stretches isSep 0 text = [text]

theorem Whole.append {isSep : Char → Bool} {front back : List Char} (hf : Whole isSep front)
    (hd : depth front = 0) (hb : Whole isSep back) : Whole isSep (front ++ back) := by
  rw [Whole] at hb ⊢
  rw [stretches_append hf, hd, Int.add_zero, hb]
  rfl

section Enclosed

variable {opening closing : Char} {inner : List Char}

theorem Balanced.enclose (ho : weight opening = 1) (hc : weight closing = -1)
    (h : Balanced inner) : Balanced (opening :: inner ++ [closing]) where
  depth_nonneg := by
    intro front hf
    rcases List.prefix_concat_iff.mp hf with rfl | hf
    · simp [ho, hc, h.depth_eq]
    · rcases List.prefix_cons_iff.mp hf with rfl | ⟨part, rfl, hp⟩
      · simp
      · have := h.depth_nonneg part hp
        rw [depth_cons, ho]
        omega
  depth_eq := by simp [ho, hc, h.depth_eq]

theorem Balanced.whole_enclose {isSep : Char → Bool} (ho : weight opening = 1)
    (hc : weight closing = -1) (hs : isSep closing = false) (h : Balanced inner) :
    Whole isSep (opening :: inner ++ [closing]) := by
  have hi : stretches isSep 1 inner = [inner] := stretches_of_pos fun front hf => by
    have := h.depth_nonneg front hf
    omega
  simp [Whole, stretches, ho, hc, hs, stretches_append hi, h.depth_eq]

theorem closesAtEnd_append_iff {d : Int} (hd : 0 < d) (hc : weight closing = -1) :
    closesAtEnd d (inner ++ [closing]) = true ↔
      (∀ front, front <+: inner → 0 < d + depth front) ∧ d + depth inner = 1 := by
  induction inner generalizing d with
  | nil =>
    have hz : d + -1 = 0 ↔ d = 1 := by omega
    simp [closesAtEnd, hc, hz, hd]
  | cons c rest ih =>
    have hw := neg_one_le_weight c
    by_cases hz : d + weight c = 0
    · have hn : ¬ ∀ front, front <+: c :: rest → 0 < d + depth front := by
        intro hf
        have := hf [c] (List.prefix_append [c] rest)
        simp [hz] at this
      simp [closesAtEnd, hz, hn]
    · have hr := @ih (d + weight c) (by omega)
      simp only [List.cons_append, closesAtEnd, hz, if_false, hr, depth_cons, Int.add_assoc]
      refine and_congr_left fun _ => ⟨fun h front hf => ?_, fun h front hf => ?_⟩
      · rcases List.prefix_cons_iff.mp hf with rfl | ⟨part, rfl, hp⟩
        · simpa using hd
        · simpa using h part hp
      · simpa using h (c :: front) (List.cons_prefix_cons.mpr ⟨rfl, hf⟩)

theorem enclosed_eq_closesAtEnd (ho : weight opening = 1) :
    enclosed opening closing (opening :: inner ++ [closing]) =
      closesAtEnd 1 (inner ++ [closing]) := by
  have hl : (opening :: (inner ++ [closing])).getLast? = some closing := by
    rw [← List.cons_append, List.getLast?_concat]
  simp [enclosed, closesAtEnd, ho, hl]

/-- A pair of brackets encloses just the balanced texts. -/
theorem enclosed_iff_balanced (ho : weight opening = 1) (hc : weight closing = -1) :
    enclosed opening closing (opening :: inner ++ [closing]) = true ↔ Balanced inner := by
  rw [enclosed_eq_closesAtEnd ho, closesAtEnd_append_iff (by omega) hc]
  constructor
  · rintro ⟨hf, hd⟩
    exact ⟨fun front hp => by have := hf front hp; omega, by omega⟩
  · intro h
    refine ⟨fun front hp => ?_, by rw [h.depth_eq]; rfl⟩
    have := h.depth_nonneg front hp
    omega

end Enclosed

theorem eq_of_enclosed {opening closing : Char} {text : List Char}
    (h : enclosed opening closing text = true) : text = opening :: inside text ++ [closing] := by
  simp only [enclosed, Bool.and_eq_true, decide_eq_true_eq, beq_iff_eq] at h
  obtain ⟨⟨⟨hl, hh⟩, ht⟩, _⟩ := h
  obtain ⟨rest, rfl⟩ := List.head?_eq_some_iff.mp hh
  have hn : rest ≠ [] := by
    rintro rfl
    simp at hl
  rw [List.getLast?_cons_of_ne_nil hn] at ht
  simp [inside, List.dropLast_append_getLast? closing ht]

theorem closesAtEnd_append {d : Int} {front back : List Char} (hf : front ≠ [])
    (hb : back ≠ []) (hd : d + depth front = 0) : closesAtEnd d (front ++ back) = false := by
  induction front generalizing d with
  | nil => exact absurd rfl hf
  | cons c rest ih =>
    simp only [depth_cons, ← Int.add_assoc] at hd
    by_cases hz : d + weight c = 0
    · simp [closesAtEnd, hz, hb]
    · have hr : rest ≠ [] := by
        rintro rfl
        simp [hz] at hd
      simpa [closesAtEnd, hz] using ih hr hd

theorem not_enclosed_append {opening closing : Char} {front back : List Char} (hf : front ≠ [])
    (hb : back ≠ []) (hd : depth front = 0) : enclosed opening closing (front ++ back) = false := by
  have hc : closesAtEnd 0 (front ++ back) = false :=
    closesAtEnd_append hf hb (by rw [hd, Int.zero_add])
  simp [enclosed, hc]

end StepSequencer
