import Mathlib
import StepSequencer.Number.Binary64

/-! Integers beyond the doubles. -/

namespace StepSequencer

open Float.Model

theorem mantissa_shiftRight (extended : UnpackedFloat.ExtendedMantissa) (shift : Nat) :
    (extended >>> shift).mantissa = extended.mantissa / 2 ^ shift := by
  induction shift with
  | zero => simp [HShiftRight.hShiftRight, Nat.repeat]
  | succ shift ih =>
    change (extended >>> shift).mantissa / 2 = _
    rw [ih, Nat.div_div_eq_div_mul, Nat.pow_succ]

section Packing

variable {spec : Format}

theorem isFinite_unpack (bits : BitVec spec.numBits) :
    (UnpackedFloat.unpack spec bits).isFinite =
      decide (UnpackedFloat.unpackExponent bits ≠ -1#_) := by
  unfold UnpackedFloat.unpack
  dsimp only
  by_cases he : UnpackedFloat.unpackExponent bits = -1#_
  · rw [if_pos he, decide_eq_false (not_not_intro he)]
    split <;> rfl
  · rw [if_neg he, decide_eq_true he]
    split
    · split <;> rfl
    · rfl

theorem isFinite_pack_finite (sign : UnpackedFloat.Sign) (mantissa : Nat) (exponent : Int)
    (h : 0 < mantissa) :
    (UnpackedFloat.unpack spec
      (UnpackedFloat.pack spec (.finite sign mantissa exponent h))).isFinite =
    decide ((exponent + spec.exponentBias + spec.mantissaBitsWithoutImplicit).toNat + 1 <
      2 ^ spec.exponentBits) := by
  rw [isFinite_unpack, UnpackedFloat.pack]
  generalize (exponent + spec.exponentBias + spec.mantissaBitsWithoutImplicit).toNat = biased
  have hs : 2 ^ 1 ≤ 2 ^ spec.exponentBits := Nat.pow_le_pow_right Nat.two_pos spec.he
  by_cases hb : 2 ^ spec.exponentBits ≤ biased + 1
  · simp [hb, UnpackedFloat.packedInfinity]
  · rw [if_neg hb, decide_eq_true (Nat.not_le.mp hb)]
    split
    · rw [UnpackedFloat.unpackExponent_packComponents]
      refine decide_eq_true fun he => ?_
      have ht := congrArg BitVec.toNat he
      rw [BitVec.toNat_ofNat, Nat.mod_eq_of_lt (by omega), BitVec.neg_one_eq_allOnes,
        BitVec.toNat_allOnes] at ht
      omega
    · rw [UnpackedFloat.unpackExponent_packComponents]
      refine decide_eq_true fun he => ?_
      have ht := congrArg BitVec.toNat he
      rw [BitVec.toNat_ofNat, Nat.zero_mod, BitVec.neg_one_eq_allOnes,
        BitVec.toNat_allOnes] at ht
      omega

theorem bounds_of_unpack {bits : BitVec spec.numBits} {sign : UnpackedFloat.Sign} {mantissa : Nat}
    {exponent : Int} {hp : 0 < mantissa}
    (h : UnpackedFloat.unpack spec bits = .finite sign mantissa exponent hp) :
    mantissa < 2 ^ (1 + spec.mantissaBitsWithoutImplicit) ∧
      exponent ≤ max ((UnpackedFloat.unpackExponent bits).toNat : Int) 1 -
        (spec.exponentBias + spec.mantissaBitsWithoutImplicit) := by
  unfold UnpackedFloat.unpack at h
  dsimp only at h
  split at h
  · split at h <;> cases h
  · split at h
    next he =>
      split at h
      · cases h
      · cases h
        refine ⟨(BitVec.isLt _).trans (Nat.pow_lt_pow_right Nat.one_lt_two (by omega)), ?_⟩
        rw [he, BitVec.toNat_zero]
        omega
    next =>
      cases h
      exact ⟨BitVec.isLt _, by omega⟩

theorem unpackExponent_pack_le {sign : UnpackedFloat.Sign} {mantissa : Nat} {exponent : Int}
    {h : 0 < mantissa}
    (hb : (exponent + spec.exponentBias + spec.mantissaBitsWithoutImplicit).toNat + 1 <
      2 ^ spec.exponentBits) :
    (UnpackedFloat.unpackExponent
      (UnpackedFloat.pack spec (.finite sign mantissa exponent h))).toNat ≤
        (exponent + spec.exponentBias + spec.mantissaBitsWithoutImplicit).toNat := by
  rw [UnpackedFloat.pack, if_neg (Nat.not_le.mpr hb)]
  split
  · rw [UnpackedFloat.unpackExponent_packComponents, BitVec.toNat_ofNat]
    exact Nat.mod_le _ _
  · rw [UnpackedFloat.unpackExponent_packComponents, BitVec.toNat_zero]
    exact Nat.zero_le _

end Packing

theorem isFinite_pack_of_binary64 (sign : UnpackedFloat.Sign) (mantissa : Nat) (exponent : Int)
    (h : 0 < mantissa) :
    (pack (.finite sign mantissa exponent h)).isFinite = decide (exponent ≤ 971) := by
  refine (isFinite_pack_finite sign mantissa exponent h).trans (decide_eq_decide.mpr ?_)
  simp only [Format.exponentBias]
  omega

theorem shiftToTargetExponent_eq (mantissa : Nat) (exponent : Int) :
    ∃ shift : Nat,
      exponent + shift = max exponent (max (mantissa.log2 + exponent - 52) (-1074)) ∧
      UnpackedFloat.shiftToTargetExponent .binary64 mantissa exponent .exact =
        (UnpackedFloat.ExtendedMantissa.mk mantissa false false >>> shift, exponent + shift) := by
  refine ⟨(Format.binary64.targetExponent (totalExponent mantissa exponent) - exponent).toNat,
    ?_, rfl⟩
  simp only [Format.targetExponent, totalExponent, Format.mantissaBits, Format.minExponent]
  omega

theorem mantissa_le_roundedMantissa (extended : UnpackedFloat.ExtendedMantissa) :
    extended.mantissa ≤ extended.roundedMantissa ∧
      extended.roundedMantissa ≤ extended.mantissa + 1 := by
  rcases extended with ⟨mantissa, half, sticky⟩
  cases half <;> cases sticky <;>
    simp [UnpackedFloat.ExtendedMantissa.roundedMantissa, UnpackedFloat.ExtendedMantissa.accuracy,
      UnpackedFloat.Accuracy.roundToNearestEven]
  omega

/-- Rounding shifts a number until its mantissa is short enough, and then once more if that has made
the mantissa longer. -/
theorem roundWithAccuracy_cases (sign : UnpackedFloat.Sign) (mantissa : Nat) (exponent : Int) :
    ∃ shift rounded : Nat,
      exponent + shift = max exponent (max (mantissa.log2 + exponent - 52) (-1074)) ∧
      rounded = (UnpackedFloat.ExtendedMantissa.mk mantissa false false >>> shift).roundedMantissa ∧
      (rounded = 0 ∧
          UnpackedFloat.roundWithAccuracy .binary64 sign mantissa exponent .exact = .zero sign ∨
        rounded ≠ 0 ∧ ∃ left last h,
          UnpackedFloat.roundWithAccuracy .binary64 sign mantissa exponent .exact =
              .finite sign left last h ∧
            last = exponent + shift + max 0 ((rounded.log2 : Int) - 52)) := by
  obtain ⟨shift, hs, hf⟩ := shiftToTargetExponent_eq mantissa exponent
  refine ⟨shift, _, hs, rfl, ?_⟩
  generalize hr : (UnpackedFloat.ExtendedMantissa.mk mantissa false false >>>
    shift).roundedMantissa = rounded
  obtain ⟨again, ha, hg⟩ := shiftToTargetExponent_eq rounded (exponent + shift)
  have hm := mantissa_shiftRight (.mk rounded false false) again
  rw [UnpackedFloat.roundWithAccuracy, hf]
  simp only [hr, hg]
  by_cases hz : rounded = 0
  · have hd : (UnpackedFloat.ExtendedMantissa.mk rounded false false >>> again).mantissa = 0 := by
      rw [hm, hz, Nat.zero_div]
    exact .inl ⟨hz, dif_pos hd⟩
  · have hl : again ≤ rounded.log2 := by omega
    have hp : 2 ^ again ≤ rounded :=
      (Nat.pow_le_pow_right Nat.two_pos hl).trans (Nat.log2_self_le hz)
    have hd : (UnpackedFloat.ExtendedMantissa.mk rounded false false >>> again).mantissa ≠ 0 := by
      rw [hm]
      exact (Nat.div_pos hp (Nat.two_pow_pos again)).ne'
    rw [dif_neg hd]
    exact .inr ⟨hz, _, _, Nat.pos_of_ne_zero hd, rfl, by omega⟩

/-- Zero, or a number whose exponent is not above a bound. -/
def Bounded (bound : Int) (number : UnpackedFloat) : Prop :=
  (∃ sign, number = .zero sign) ∨
    ∃ sign mantissa exponent h, number = .finite sign mantissa exponent h ∧ exponent ≤ bound

theorem Bounded.isFinite_pack {number : UnpackedFloat} {bound : Int} (h : Bounded bound number)
    (hb : bound ≤ 971) : (pack number).isFinite = true := by
  rcases h with ⟨sign, rfl⟩ | ⟨sign, mantissa, exponent, hp, rfl, he⟩
  · cases sign <;> rfl
  · rw [isFinite_pack_of_binary64, decide_eq_true (he.trans hb)]

theorem roundedMantissa_le {mantissa shift : Nat} (h : mantissa.log2 ≤ 52 + shift) :
    (UnpackedFloat.ExtendedMantissa.mk mantissa false false >>> shift).roundedMantissa ≤
      2 ^ 53 := by
  have hr := mantissa_le_roundedMantissa
    (UnpackedFloat.ExtendedMantissa.mk mantissa false false >>> shift)
  rw [mantissa_shiftRight] at hr
  have hq : mantissa / 2 ^ shift < 2 ^ 53 := by
    rw [Nat.div_lt_iff_lt_mul (Nat.two_pow_pos shift), ← Nat.pow_add]
    exact Nat.lt_log2_self.trans_le (Nat.pow_le_pow_right Nat.two_pos (by omega))
  exact hr.2.trans hq

theorem bounded_round (sign : UnpackedFloat.Sign) {mantissa : Nat} {exponent bound : Int}
    (hm : mantissa.log2 + exponent ≤ bound + 52) (he : exponent ≤ bound) (hb : -1074 ≤ bound) :
    Bounded (bound + 1)
      (UnpackedFloat.roundWithAccuracy .binary64 sign mantissa exponent .exact) := by
  obtain ⟨shift, rounded, hs, hr, hc⟩ := roundWithAccuracy_cases sign mantissa exponent
  rcases hc with ⟨-, hz⟩ | ⟨hn, left, last, hp, hf, hl⟩
  · exact .inl ⟨sign, hz⟩
  · have hle : rounded ≤ 2 ^ 53 := hr ▸ roundedMantissa_le (by omega)
    have hlog : rounded.log2 < 54 := (Nat.log2_lt hn).mpr (by omega)
    exact .inr ⟨sign, left, last, hp, hf, by omega⟩

theorem bounds_of_unpack_pack {number : UnpackedFloat} {bound : Int} (h : Bounded bound number)
    (hl : -1074 ≤ bound) (hb : bound ≤ 971) {sign : UnpackedFloat.Sign} {mantissa : Nat}
    {exponent : Int} {hp : 0 < mantissa}
    (hu : (pack number).unpack = .finite sign mantissa exponent hp) :
    mantissa < 2 ^ 53 ∧ exponent ≤ bound := by
  obtain ⟨hm, he⟩ := bounds_of_unpack hu
  refine ⟨hm, ?_⟩
  rcases h with ⟨sign', rfl⟩ | ⟨sign', first, start, hp', rfl, hs⟩
  · cases sign' <;> cases hu
  · have hx : (@UnpackedFloat.unpackExponent .binary64
        (pack (.finite sign' first start hp')).toBits.toBitVec).toNat ≤ (start + 1023 + 52).toNat :=
      @unpackExponent_pack_le .binary64 sign' first start hp'
        (by simp only [Format.exponentBias]; omega)
    refine he.trans ?_
    generalize (@UnpackedFloat.unpackExponent .binary64
      (pack (.finite sign' first start hp')).toBits.toBitVec).toNat = field at hx
    simp only [Format.exponentBias]
    omega

theorem exponent_le_of_unpack {number : Float.Model} {sign : UnpackedFloat.Sign} {mantissa : Nat}
    {exponent : Int} {hp : 0 < mantissa} (h : number.unpack = .finite sign mantissa exponent hp) :
    exponent ≤ 971 := by
  have he := (bounds_of_unpack h).2
  have hf : number.unpack.isFinite = true := by rw [h]; rfl
  have hn := of_decide_eq_true ((isFinite_unpack _).symm.trans hf)
  generalize hg : @UnpackedFloat.unpackExponent .binary64 number.toBits.toBitVec = field at he hn
  have hl : field.toNat < 2048 := field.isLt
  have hm : field.toNat ≠ 2047 := fun hm => hn (BitVec.eq_of_toNat_eq hm)
  simp only [Format.exponentBias] at he
  omega

theorem isFinite_neg (x : Float) : (-x).isFinite = x.isFinite := by
  change (pack x.toModel.unpack.neg).isFinite = x.toModel.unpack.isFinite
  cases h : x.toModel.unpack with
  | infinity sign => cases sign <;> rfl
  | notANumber => rfl
  | zero sign => cases sign <;> rfl
  | finite sign mantissa exponent hp =>
    have hb := isFinite_pack_of_binary64 (-sign) mantissa exponent hp
    rw [decide_eq_true (exponent_le_of_unpack h)] at hb
    exact hb

theorem log2_mul_two_pow {n : Nat} (h : n ≠ 0) (shift : Nat) :
    (n * 2 ^ shift).log2 = n.log2 + shift := by
  rw [Nat.log2_eq_iff (Nat.mul_ne_zero h (Nat.two_pow_pos shift).ne'), Nat.add_right_comm,
    Nat.pow_add, Nat.pow_add]
  exact ⟨Nat.mul_le_mul_right _ (Nat.log2_self_le h),
    Nat.mul_lt_mul_of_pos_right Nat.lt_log2_self (Nat.two_pow_pos shift)⟩

theorem bounded_ofNat {n : Nat} (h : n < 2 ^ 53) : Bounded 1 (UnpackedFloat.ofNat .binary64 n) := by
  by_cases hn : n = 0
  · exact .inl ⟨.positive, by rw [hn]; rfl⟩
  · have hl : n.log2 < 53 := (Nat.log2_lt hn).mpr h
    have hc : compare (n : Int) 0 = .gt := by
      rw [compare_gt_iff_gt]
      omega
    rw [UnpackedFloat.ofNat, UnpackedFloat.ofInt, UnpackedFloat.normalize, hc]
    dsimp only [UnpackedFloat.round, UnpackedFloat.decreaseExponent]
    generalize (0 - Format.binary64.targetExponent
      (totalExponent (n : Int).toNat 0)).toNat = shift
    rw [Int.toNat_natCast, Nat.shiftLeft_eq]
    have hs := log2_mul_two_pow hn shift
    exact @bounded_round .positive (n * 2 ^ shift) (0 - shift) 0 (by omega) (by omega) (by decide)

theorem isFinite_ofNat_of_lt {n : Nat} (h : n < 2 ^ 53) : (Float.ofNat n).isFinite = true := by
  have hf : Float.ofNat n = n.toUInt64.toFloat * Float.ofBits 0x3FF0000000000000 := by
    change Float.ofScientific n false 0 = _
    rw [Float.ofScientific, dif_pos ⟨h, by decide⟩]
    rfl
  have hn : n.toUInt64.toNat = n := by
    rw [Nat.toUInt64, UInt64.toNat_ofNat']
    omega
  have hb : Bounded 1 (UnpackedFloat.ofNat .binary64 n.toUInt64.toNat) := hn.symm ▸ bounded_ofNat h
  have ho : (Float.ofBits 0x3FF0000000000000).toModel.unpack =
    .finite .positive (2 ^ 52) (-52) (by decide) := rfl
  rw [hf]
  change (pack (UnpackedFloat.mul .binary64
    (pack (UnpackedFloat.ofNat .binary64 n.toUInt64.toNat)).unpack _)).isFinite = true
  rw [ho]
  have hu := @bounds_of_unpack_pack _ _ hb (by decide) (by decide)
  have hfin : (pack (UnpackedFloat.ofNat .binary64 n.toUInt64.toNat)).unpack.isFinite = true :=
    hb.isFinite_pack (by decide)
  generalize (pack (UnpackedFloat.ofNat .binary64 n.toUInt64.toNat)).unpack = number at hu hfin
  cases number with
  | infinity sign => cases hfin
  | notANumber => cases hfin
  | zero sign => cases sign <;> rfl
  | finite sign mantissa exponent hp =>
    obtain ⟨hm, he⟩ := hu rfl
    have hl : mantissa.log2 < 53 := (Nat.log2_lt hp.ne').mpr hm
    have hs := log2_mul_two_pow hp.ne' 52
    exact (@bounded_round (sign * .positive) (mantissa * 2 ^ 52) (exponent + -52) 1 (by omega)
      (by omega) (by decide)).isFinite_pack (by decide)

theorem ofScientific_eq_round {n : Nat} (h : n ≠ 0) :
    UnpackedFloat.ofScientific .binary64 n 0 =
      UnpackedFloat.roundWithAccuracy .binary64 .positive (n * 2 ^ 53) (-53) .exact := by
  have hl : ¬(0 : Int) < -(2 ^ 11 + n.log2) := by omega
  have hm : n * 2 ^ Format.binary64.mantissaBits * 10 ^ Int.toNat 0 = n * 2 ^ 53 := Nat.mul_one _
  rw [UnpackedFloat.ofScientific, dif_neg h, if_neg (by decide), if_neg hl, if_pos (by decide),
    UnpackedFloat.mul, Nat.shiftLeft_eq, hm]
  rfl

/-- A mantissa that is shortened by a bit comes up to the next power of two only if all of its bits
were set. -/
theorem roundedMantissa_shiftRightOne_lt (extended : UnpackedFloat.ExtendedMantissa) :
    extended.shiftRightOne.roundedMantissa < 2 ^ 53 ↔ extended.mantissa < 2 ^ 54 - 1 := by
  rcases extended with ⟨mantissa, half, sticky⟩
  rw [UnpackedFloat.ExtendedMantissa.roundedMantissa, UnpackedFloat.ExtendedMantissa.shiftRightOne]
  dsimp only
  by_cases hm : mantissa % 2 = 0
  · rw [hm]
    cases half || sticky <;>
      simp only [bne_self_eq_false, UnpackedFloat.ExtendedMantissa.accuracy,
        UnpackedFloat.Accuracy.roundToNearestEven] <;> omega
  · rw [bne_iff_ne.mpr hm]
    cases half || sticky <;>
      simp only [UnpackedFloat.ExtendedMantissa.accuracy,
        UnpackedFloat.Accuracy.roundToNearestEven] <;> omega

/-- The number of so many bits, all set, before so many zeros. -/
def setBits (bits zeros : Nat) : Nat := (2 ^ bits - 1) * 2 ^ zeros

theorem lt_setBits {n bits zeros : Nat} (h : n.log2 < zeros + bits) :
    n < setBits (bits + 1) zeros := by
  have hl : n < 2 ^ (zeros + bits) :=
    Nat.lt_log2_self.trans_le (Nat.pow_le_pow_right Nat.two_pos h)
  refine hl.trans_le ?_
  rw [Nat.pow_add, Nat.mul_comm]
  refine Nat.mul_le_mul_right _ ?_
  have hp := Nat.two_pow_pos bits
  rw [Nat.pow_succ]
  omega

theorem setBits_le {n bits zeros : Nat} (hn : n ≠ 0) (h : zeros + bits ≤ n.log2) :
    setBits bits zeros ≤ n := by
  refine le_trans ?_ ((Nat.pow_le_pow_right Nat.two_pos h).trans (Nat.log2_self_le hn))
  rw [Nat.pow_add, Nat.mul_comm]
  exact Nat.mul_le_mul_right _ (Nat.sub_le _ _)

theorem scaled_lt_iff (n bits scale zeros : Nat) :
    n * 2 ^ scale / 2 ^ (zeros + scale) < 2 ^ bits - 1 ↔ n < setBits bits zeros := by
  rw [Nat.pow_add, Nat.mul_div_mul_right _ _ (Nat.two_pow_pos scale),
    Nat.div_lt_iff_lt_mul (Nat.two_pow_pos zeros), setBits]

/-- The least size of an integer with no double near it, halfway from the greatest double to the
next power of two. -/
def leastTooLarge : Nat := setBits 54 970

theorem isFinite_ofNat_of_le {n : Nat} (h : 2 ^ 53 ≤ n) :
    (Float.ofNat n).isFinite = decide (n < leastTooLarge) := by
  have hn : n ≠ 0 := by omega
  have hf : Float.ofNat n = .ofModel (Float.Model.ofScientific n 0) := by
    change Float.ofScientific n false 0 = _
    rw [Float.ofScientific, dif_neg (by omega)]
    rfl
  have hlow : 2 ^ n.log2 ≤ n := Nat.log2_self_le hn
  have hhigh : n < 2 ^ (n.log2 + 1) := Nat.lt_log2_self
  have hlog : 53 ≤ n.log2 := (Nat.le_log2 hn).mpr h
  rw [hf]
  change (pack (UnpackedFloat.ofScientific .binary64 n 0)).isFinite = _
  rw [ofScientific_eq_round hn]
  obtain ⟨shift, rounded, hs, hr, hc⟩ := roundWithAccuracy_cases .positive (n * 2 ^ 53) (-53)
  rw [log2_mul_two_pow hn] at hs
  have hshift : shift = n.log2 + 1 := by
    clear hr hc
    omega
  subst hshift
  have hbits : rounded < 2 ^ 53 ↔ n * 2 ^ 53 / 2 ^ n.log2 < 2 ^ 54 - 1 := by
    rw [hr, ← mantissa_shiftRight (.mk (n * 2 ^ 53) false false)]
    exact roundedMantissa_shiftRightOne_lt _
  have hmost : rounded ≤ 2 ^ 53 :=
    hr ▸ roundedMantissa_le (by rw [log2_mul_two_pow hn]; omega)
  have hleast : 2 ^ 52 ≤ rounded := by
    refine le_trans ?_ (hr ▸ (mantissa_le_roundedMantissa _).1)
    rw [mantissa_shiftRight, Nat.le_div_iff_mul_le (Nat.two_pow_pos _)]
    change 2 ^ 52 * 2 ^ (n.log2 + 1) ≤ n * 2 ^ 53
    rw [Nat.pow_succ]
    omega
  rcases hc with ⟨hz, -⟩ | ⟨-, left, last, hp, he, hl⟩
  · omega
  · rw [he, isFinite_pack_of_binary64]
    refine decide_eq_decide.mpr ?_
    clear he hr hs
    have hone : rounded < 2 ^ 53 → rounded.log2 = 52 := fun hr =>
      (Nat.log2_eq_iff (by omega)).mpr ⟨hleast, hr⟩
    have htwo : ¬rounded < 2 ^ 53 → rounded.log2 = 53 := fun hr =>
      (Nat.log2_eq_iff (by omega)).mpr ⟨by omega, by omega⟩
    -- Only in the last binade of the doubles does the rounding decide.
    rcases lt_trichotomy n.log2 (970 + 53) with hlt | heq | hgt
    · have hn' : n < leastTooLarge := lt_setBits hlt
      by_cases hr : rounded < 2 ^ 53
      · have := hone hr
        omega
      · have := htwo hr
        omega
    · rw [heq] at hbits
      refine Iff.trans ?_ (hbits.trans (scaled_lt_iff n 54 53 970))
      by_cases hr : rounded < 2 ^ 53
      · have := hone hr
        omega
      · have := htwo hr
        omega
    · have hn' : leastTooLarge ≤ n := setBits_le hn hgt
      omega

theorem isFinite_ofNat (n : Nat) : (Float.ofNat n).isFinite = decide (n < leastTooLarge) := by
  by_cases h : n < 2 ^ 53
  · have hl : n.log2 < 970 + 53 := by
      by_cases hn : n = 0
      · rw [hn, Nat.log2_zero]
        decide
      · have := (Nat.log2_lt hn).mpr h
        omega
    rw [isFinite_ofNat_of_lt h, leastTooLarge, decide_eq_true (lt_setBits hl)]
  · exact isFinite_ofNat_of_le (Nat.not_lt.mp h)

theorem floatOfInt?_eq_none_iff {n : Int} : floatOfInt? n = none ↔ leastTooLarge ≤ n.natAbs := by
  have hf : (Float.ofInt n).isFinite = decide (n.natAbs < leastTooLarge) := by
    cases n with
    | ofNat n => exact isFinite_ofNat n
    | negSucc n => exact (isFinite_neg _).trans (isFinite_ofNat (n + 1))
  rw [floatOfInt?]
  by_cases h : n.natAbs < leastTooLarge
  · simp [hf, h]
  · simp [hf, h, Nat.not_lt.mp h]

end StepSequencer
