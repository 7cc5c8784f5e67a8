import StepSequencer.Pattern.Span
import Mathlib.Algebra.Order.Ring.Int
import Mathlib.Data.Int.ConditionallyCompleteOrder
import Mathlib.Data.Int.SuccPred
import Mathlib.Data.Rat.Floor
import Mathlib.Order.CompletePartialOrder
import Mathlib.Order.SuccPred.IntervalSucc
import Mathlib.Tactic.Linarith
import Mathlib.Tactic.Qify
import Mathlib.Tactic.Ring

/-! Boundaries are rounded shares of a total. The parts between them follow one another without a
gap, and their lengths differ by one step at most. -/

namespace StepSequencer

variable {total parts : Int}

/-- The steps of the part with an index. -/
def stepsOfPart (total parts index : Int) : Set Int :=
  Set.Ico (boundary index total parts) (boundary (index + 1) total parts)

/-- All that is known of a boundary follows from the numbers that it is not below. -/
theorem le_boundary_iff (hp : 0 < parts) {index b : Int} :
    b ≤ boundary index total parts ↔ (2 * b - 1) * parts ≤ 2 * index * total := by
  have he : b * (2 * parts) = (2 * b - 1) * parts + parts := by ring
  rw [boundary, Int.fdiv_eq_ediv_of_nonneg _ (by omega), Int.le_ediv_iff_mul_le (by omega), he]
  omega

theorem eq_boundary_iff (hp : 0 < parts) {index b : Int} :
    b = boundary index total parts ↔
      (2 * b - 1) * parts ≤ 2 * index * total ∧ 2 * index * total < (2 * b + 1) * parts := by
  have hn : ¬ b + 1 ≤ boundary index total parts ↔ 2 * index * total < (2 * b + 1) * parts := by
    have he : 2 * (b + 1) - 1 = 2 * b + 1 := by ring
    rw [le_boundary_iff hp, he, not_le]
  rw [← le_boundary_iff hp, ← hn]
  omega

theorem boundary_eq_round (hp : 0 < parts) (index : Int) :
    boundary index total parts = round ((index * total : ℚ) / parts) := by
  have hq : (0 : ℚ) < parts := by exact_mod_cast hp
  obtain ⟨hl, hu⟩ := (eq_boundary_iff hp).mp (Eq.refl (boundary index total parts))
  qify at hl hu
  rw [round_eq, eq_comm, Int.floor_eq_iff]
  constructor
  · rw [← sub_le_iff_le_add, le_div_iff₀ hq]
    linarith
  · rw [← lt_sub_iff_add_lt, div_lt_iff₀ hq]
    linarith

theorem boundary_zero (hp : 0 < parts) : boundary 0 total parts = 0 := by
  refine ((eq_boundary_iff hp).mpr ⟨?_, ?_⟩).symm <;> linarith

theorem boundary_self (hp : 0 < parts) : boundary parts total parts = total := by
  refine ((eq_boundary_iff hp).mpr ⟨?_, ?_⟩).symm <;> linarith

theorem boundary_add_le (hp : 0 < parts) (index : Int) {width : Int}
    (hw : width * parts ≤ total) :
    boundary index total parts + width ≤ boundary (index + 1) total parts := by
  have hb := (le_boundary_iff hp).mp (Int.le_refl (boundary index total parts))
  rw [le_boundary_iff hp]
  linarith

theorem boundary_succ_le (hp : 0 < parts) (index : Int) {width : Int}
    (hw : total ≤ width * parts) :
    boundary (index + 1) total parts ≤ boundary index total parts + width := by
  have hb := (le_boundary_iff hp).mp (Int.le_refl (boundary (index + 1) total parts))
  rw [← sub_le_iff_le_add, le_boundary_iff hp]
  linarith

theorem boundary_mono (ht : 0 ≤ total) (hp : 0 < parts) : Monotone (boundary · total parts) := by
  refine monotone_int_of_le_succ fun index => ?_
  have hw : 0 * parts ≤ total := by rwa [zero_mul]
  simpa only [add_zero] using boundary_add_le hp index hw

theorem boundary_strictMono (hp : 0 < parts) (hw : parts ≤ total) :
    StrictMono (boundary · total parts) :=
  strictMono_int_of_lt_succ fun index => boundary_add_le hp index (by rwa [one_mul])

theorem boundary_succ_sub (hp : 0 < parts) (index : Int) :
    boundary (index + 1) total parts - boundary index total parts = ⌊(total / parts : ℚ)⌋ ∨
      boundary (index + 1) total parts - boundary index total parts = ⌈(total / parts : ℚ)⌉ := by
  have hq : (0 : ℚ) < parts := by exact_mod_cast hp
  have hf : ⌊(total / parts : ℚ)⌋ * parts ≤ total := by
    have := (le_div_iff₀ hq).mp (Int.floor_le (total / parts : ℚ))
    exact_mod_cast this
  have hc : total ≤ ⌈(total / parts : ℚ)⌉ * parts := by
    have := (div_le_iff₀ hq).mp (Int.le_ceil (total / parts : ℚ))
    exact_mod_cast this
  -- The length lies between the floor and the ceiling, and no number lies strictly between those.
  have hl := boundary_add_le hp index hf
  have hu := boundary_succ_le hp index hc
  have hd := Int.ceil_le_floor_add_one (total / parts : ℚ)
  omega

theorem iUnion_stepsOfPart (ht : 0 ≤ total) (hp : 0 < parts) {last : Int} (hl : 0 ≤ last) :
    ⋃ index ∈ Set.Ico 0 last, stepsOfPart total parts index =
      Set.Ico 0 (boundary last total parts) := by
  induction last, hl using Int.leInduction with
  | base => simp [boundary_zero hp]
  | succ last hl ih =>
    have hm := boundary_mono ht hp
    have hz : 0 ≤ boundary last total parts := (boundary_zero hp).symm.le.trans (hm hl)
    have hi : Set.Ico 0 (last + 1) = insert last (Set.Ico 0 last) := by
      ext index
      simp only [Set.mem_Ico, Set.mem_insert_iff]
      omega
    -- The new part begins where the parts before it end.
    rw [hi, Set.biUnion_insert, ih, Set.union_comm]
    exact Set.Ico_union_Ico_eq_Ico hz (hm (by omega))

theorem disjoint_stepsOfPart (ht : 0 ≤ total) (hp : 0 < parts) :
    Pairwise (Function.onFun Disjoint (stepsOfPart total parts)) := by
  have hd := (boundary_mono ht hp).pairwise_disjoint_on_Ico_succ
  simp only [Order.succ_eq_add_one] at hd
  exact hd

/-- A span is shared evenly. Each boundary is a share of the total, rounded to the nearest number
and a half upwards. A part between two boundaries is as long as the share rounded down or up, and
together the parts hold every step of the span just once. Where there are steps for all of them,
none of the parts is empty. -/
theorem span_shared_evenly (ht : 0 ≤ total) (hp : 0 < parts) :
    (∀ index, boundary? index total parts = some (boundary index total parts) ∧
      boundary index total parts = round ((index * total : ℚ) / parts) ∧
      ∀ b, b = boundary index total parts ↔
        (2 * b - 1) * parts ≤ 2 * index * total ∧ 2 * index * total < (2 * b + 1) * parts) ∧
    boundary 0 total parts = 0 ∧ boundary parts total parts = total ∧
    Monotone (boundary · total parts) ∧
    (∀ index, boundary (index + 1) total parts - boundary index total parts =
        ⌊(total / parts : ℚ)⌋ ∨
      boundary (index + 1) total parts - boundary index total parts = ⌈(total / parts : ℚ)⌉) ∧
    ⋃ index ∈ Set.Ico 0 parts, stepsOfPart total parts index = Set.Ico 0 total ∧
    Pairwise (Function.onFun Disjoint (stepsOfPart total parts)) ∧
    (parts ≤ total → StrictMono (boundary · total parts) ∧
      ∀ index, index < parts → boundary index total parts < total) := by
  refine ⟨fun index => ⟨if_neg hp.ne', boundary_eq_round hp index, fun b => eq_boundary_iff hp⟩,
    boundary_zero hp, boundary_self hp, boundary_mono ht hp, boundary_succ_sub hp, ?_,
    disjoint_stepsOfPart ht hp, fun hw => ?_⟩
  · rw [iUnion_stepsOfPart ht hp hp.le, boundary_self hp]
  · have hm := boundary_strictMono hp hw
    refine ⟨hm, fun index hi => ?_⟩
    simpa only [boundary_self hp] using hm hi

/-- Five steps in two parts: the first part ends on a half. -/
theorem span_shared_evenly_half :
    (0 : Int) ≤ 5 ∧ (0 : Int) < 2 ∧ (2 : Int) ≤ 5 ∧ boundary? 1 5 2 = some 3 ∧
      boundary 1 5 2 < 5 ∧ ⋃ index ∈ Set.Ico 0 2, stepsOfPart 5 2 index = Set.Ico 0 5 := by
  obtain ⟨hb, -, -, -, -, hu, -, hs⟩ :=
    span_shared_evenly (show (0 : Int) ≤ 5 by decide) (show (0 : Int) < 2 by decide)
  obtain ⟨hr, -, hi⟩ := hb 1
  have hthree : 3 = boundary 1 5 2 := (hi 3).mpr (by decide)
  exact ⟨by decide, by decide, by decide, hthree ▸ hr, (hs (by decide)).2 1 (by decide), hu⟩

end StepSequencer
