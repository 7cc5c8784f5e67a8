import StepSequencer.Number.Binary64

/-! Infinities and no number: neither has a remainder, and a sum with no number is none. -/

namespace StepSequencer

namespace Binary64

theorem remainder_of_no_floor {x : Binary64} (h : x.floor? = none) (divisor : Binary64) :
    x.remainder divisor = .nan := by
  cases x with
  | nan => rfl
  | infinite negative => rfl
  | finite negative mantissa exponent =>
    rw [floor?] at h
    split at h <;> exact absurd h nofun

open Float.Model in
theorem ofFloat_nan_add (x : Float) : ofFloat (nan.toFloat + x) = .nan := by
  have hn : nan.toFloat.toModel.unpack = .notANumber := rfl
  have hs : nan.toFloat + x = Float.ofModel (pack .notANumber) := by
    change Float.ofModel (Float.Model.add nan.toFloat.toModel x.toModel) = _
    rw [Float.Model.add, hn]
    rfl
  rw [hs]
  decide

theorem ofFloat_floatMod {x : Float} (h : (ofFloat x).floor? = none) (divisor : Float) :
    ofFloat (floatMod x divisor) = .nan := by
  rw [floatMod, remainder_of_no_floor h]
  have hz : (nan.toFloat == 0.0) = false := by decide
  have hl : decide (nan.toFloat < 0.0) = false := by decide
  simp only [hz, hl, Bool.false_eq_true, if_false]
  split
  · exact ofFloat_nan_add divisor
  · decide

end Binary64

end StepSequencer
