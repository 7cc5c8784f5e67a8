import StepSequencer.Proofs.Boundary

/-! The parts of a span of steps, told as numbers of steps. -/

namespace StepSequencer

theorem boundary_natCast (width parts index : Nat) :
    boundary index width parts = partStart width parts index := by
  have hn : 0 ≤ boundary index width parts := by
    rw [boundary, Int.fdiv_eq_ediv_of_nonneg _ (by omega)]
    exact Int.ediv_nonneg (by positivity) (by omega)
  exact (Int.toNat_of_nonneg hn).symm

/-- A boundary is the nearest step to an equal share of the span, a half rounded up. -/
theorem partStart_eq_round {parts : Nat} (width index : Nat) (hp : 0 < parts) :
    (partStart width parts index : Int) = round ((index * width : ℚ) / parts) := by
  rw [← boundary_natCast, boundary_eq_round (by omega)]
  push_cast
  rfl

theorem partStart_zero {parts : Nat} (width : Nat) (hp : 0 < parts) :
    partStart width parts 0 = 0 := by
  rw [partStart, Nat.cast_zero, boundary_zero (by omega), Int.toNat_zero]

theorem partStart_self {parts : Nat} (width : Nat) (hp : 0 < parts) :
    partStart width parts parts = width := by
  rw [partStart, boundary_self (by omega), Int.toNat_natCast]

theorem partStart_mono (width parts : Nat) {first last : Nat} (h : first ≤ last) :
    partStart width parts first ≤ partStart width parts last := by
  rcases Nat.eq_zero_or_pos parts with rfl | hp
  · simp [partStart, boundary]
  · exact Int.toNat_le_toNat (boundary_mono (by omega) (by omega) (by exact_mod_cast h))

theorem partStart_add_partWidth (width parts index : Nat) :
    partStart width parts index + partWidth width parts index =
      partStart width parts (index + 1) := by
  have hs := partStart_mono width parts (Nat.le_add_right index 1)
  rw [partWidth]
  omega

theorem partStart_le (width : Nat) {parts index : Nat} (hp : 0 < parts) (hi : index ≤ parts) :
    partStart width parts index ≤ width := by
  simpa only [partStart_self width hp] using partStart_mono width parts hi

theorem le_partWidth {width parts least : Nat} (index : Nat) (hp : 0 < parts)
    (hw : least * parts ≤ width) : least ≤ partWidth width parts index := by
  have hw' : (least * parts : Int) ≤ width := by exact_mod_cast hw
  have hb := boundary_add_le (Int.natCast_pos.mpr hp) index hw'
  rw [← Nat.cast_add_one, boundary_natCast, boundary_natCast] at hb
  rw [partWidth]
  omega

theorem partWidth_le {width parts most : Nat} (index : Nat) (hp : 0 < parts)
    (hw : width ≤ most * parts) : partWidth width parts index ≤ most := by
  have hw' : (width : Int) ≤ most * parts := by exact_mod_cast hw
  have hb := boundary_succ_le (Int.natCast_pos.mpr hp) index hw'
  rw [← Nat.cast_add_one, boundary_natCast, boundary_natCast] at hb
  rw [partWidth]
  omega

/-- Where there are at least as many parts as steps, no part has two steps. -/
theorem partWidth_le_one {width parts : Nat} (index : Nat) (hp : 0 < parts)
    (hw : width ≤ parts) : partWidth width parts index ≤ 1 :=
  partWidth_le index hp (by omega)

/-- Where there are at least as many steps as parts, every part has a step. -/
theorem partWidth_pos {width parts : Nat} (index : Nat) (hp : 0 < parts)
    (hw : parts ≤ width) : 0 < partWidth width parts index :=
  le_partWidth index hp (by omega)

theorem partWidth_mul {parts : Nat} (width index : Nat) (hp : 0 < parts) :
    partWidth (parts * width) parts index = width :=
  Nat.le_antisymm (partWidth_le index hp (Nat.mul_comm parts width).le)
    (le_partWidth index hp (Nat.mul_comm width parts).le)

end StepSequencer
