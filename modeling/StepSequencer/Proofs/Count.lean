import StepSequencer.Pattern.Token
import Mathlib.Data.List.Basic
import Mathlib.Data.List.TakeWhile

/-! Counts in a text: an asterisk with digits after it. Writing a number and reading it gives the
number back, and a text has at most one count at its end. -/

namespace StepSequencer

theorem digitValue?_of_isDigit {c : Char} (h : c.isDigit = true) :
    digitValue? c = some (c.toNat - 48) := by
  simp only [Char.isDigit, Bool.and_eq_true, decide_eq_true_eq] at h
  have hl : 48 ≤ c.toNat := h.1
  have hu : c.toNat ≤ 57 := h.2
  have hc : c.toNat < 58 := by omega
  simp [digitValue?, scriptZeros, hl, hc]

theorem not_isBlank_of_isDigit {c : Char} (h : c.isDigit = true) : isBlank c = false := by
  simp only [Char.isDigit, Bool.and_eq_true, decide_eq_true_eq] at h
  have hl : 48 ≤ c.toNat := h.1
  have hu : c.toNat ≤ 57 := h.2
  simp only [isBlank, Bool.or_eq_false_iff, Bool.and_eq_false_iff, decide_eq_false_iff_not,
    beq_eq_false_iff_ne]
  omega

theorem weight_of_isDigit {c : Char} (h : c.isDigit = true) : weight c = 0 := by
  simp only [weight]
  split
  next hc => rcases hc with rfl | rfl | rfl <;> simp at h
  next =>
    split
    next hc => rcases hc with rfl | rfl | rfl <;> simp at h
    next => rfl

theorem foldl_digitValue {text : List Char} (h : ∀ c ∈ text, c.isDigit = true) (n : Nat) :
    text.foldl (fun n c => 10 * n + (digitValue? c).getD 0) n = Nat.ofDigitChars 10 text n := by
  induction text generalizing n with
  | nil => rfl
  | cons c rest ih =>
    rw [List.foldl_cons, ih (fun d hd => h d (List.mem_cons_of_mem _ hd)),
      digitValue?_of_isDigit (h c List.mem_cons_self), Nat.ofDigitChars_cons]
    rfl

theorem numberOfDigits_toDigits (n : Nat) : numberOfDigits (Nat.toDigits 10 n) = n := by
  rw [numberOfDigits, foldl_digitValue fun _ hc =>
    Nat.isDigit_of_mem_toDigits (by omega) (by omega) hc, Nat.ofDigitChars_ten_toDigits]

theorem numberOfDigits_toString_nat (n : Nat) : numberOfDigits (toString n).toList = n := by
  have ht : (toString n).toList = Nat.toDigits 10 n := Nat.toList_repr
  rw [ht, numberOfDigits_toDigits]

section Written

variable {count : Int}

theorem toList_toString_of_nonneg (h : 0 ≤ count) :
    (toString count).toList = Nat.toDigits 10 count.toNat := by
  obtain ⟨n, rfl⟩ := Int.eq_ofNat_of_zero_le h
  rw [Int.toNat_natCast]
  exact Nat.toList_repr

theorem toList_toString_ne_nil (h : 0 ≤ count) : (toString count).toList ≠ [] := by
  rw [toList_toString_of_nonneg h]
  exact Nat.toDigits_ne_nil

theorem isDigit_of_mem_toString {c : Char} (h : 0 ≤ count) (hc : c ∈ (toString count).toList) :
    c.isDigit = true := by
  rw [toList_toString_of_nonneg h] at hc
  exact Nat.isDigit_of_mem_toDigits (by omega) (by omega) hc

theorem weight_of_mem_count {c : Char} (h : 0 ≤ count) (hc : c ∈ '*' :: (toString count).toList) :
    weight c = 0 := by
  rcases List.mem_cons.mp hc with rfl | hc
  · decide
  · exact weight_of_isDigit (isDigit_of_mem_toString h hc)

theorem not_isBlank_of_mem_count {c : Char} (h : 0 ≤ count)
    (hc : c ∈ '*' :: (toString count).toList) : isBlank c = false := by
  rcases List.mem_cons.mp hc with rfl | hc
  · decide
  · exact not_isBlank_of_isDigit (isDigit_of_mem_toString h hc)

theorem numberOfDigits_toString (h : 0 ≤ count) :
    (numberOfDigits (toString count).toList : Int) = count := by
  rw [toList_toString_of_nonneg h, numberOfDigits_toDigits, Int.toNat_of_nonneg h]

end Written

theorem isDigit_of_ascii {c : Char} (h : c.isDigit = true) : isDigit c = true := by
  rw [isDigit, digitValue?_of_isDigit h]
  rfl

/-- The text ends in an asterisk and digits. -/
def EndsInCount (text : List Char) : Prop :=
  ∃ front digits, digits ≠ [] ∧ (∀ c ∈ digits, isDigit c = true) ∧ text = front ++ '*' :: digits

theorem repeatSuffix?_append {base digits : List Char} (hb : base ≠ []) (hn : digits ≠ [])
    (hd : ∀ c ∈ digits, isDigit c = true) :
    repeatSuffix? (base ++ '*' :: digits) = some (base, digits) := by
  have he : (base ++ '*' :: digits).reverse = digits.reverse ++ '*' :: base.reverse := by simp
  have hr : ∀ c ∈ digits.reverse, isDigit c = true := fun c hc => hd c (List.mem_reverse.mp hc)
  have hs : isDigit '*' = false := by decide
  have ht : (digits.reverse ++ '*' :: base.reverse).takeWhile isDigit = digits.reverse := by
    rw [List.takeWhile_append_of_pos hr]
    simp [hs]
  have hw : (digits.reverse ++ '*' :: base.reverse).dropWhile isDigit = '*' :: base.reverse := by
    rw [List.dropWhile_append_of_pos hr]
    simp [hs]
  simp [repeatSuffix?, he, ht, hw, hb, hn]

theorem eq_append_of_repeatSuffix? {text base digits : List Char}
    (h : repeatSuffix? text = some (base, digits)) :
    base ≠ [] ∧ digits ≠ [] ∧ (∀ c ∈ digits, isDigit c = true) ∧
      text = base ++ '*' :: digits := by
  simp only [repeatSuffix?] at h
  split at h
  next rest hd =>
    split at h
    · simp at h
    next hn =>
      simp only [Bool.or_eq_true, not_or, List.isEmpty_iff, List.reverse_eq_nil_iff] at hn
      obtain ⟨rfl, rfl⟩ := Prod.mk.inj (Option.some.inj h)
      have ht : text.reverse.takeWhile isDigit ++ '*' :: rest = text.reverse := by
        rw [← hd, List.takeWhile_append_dropWhile]
      refine ⟨by simpa using hn.2, by simpa using hn.1, fun c hc => ?_, ?_⟩
      · exact List.mem_takeWhile_imp (List.mem_reverse.mp hc)
      · simpa using (congrArg List.reverse ht).symm
  · simp at h

theorem endsInCount_of_repeatSuffix? {text base digits : List Char}
    (h : repeatSuffix? text = some (base, digits)) : EndsInCount text := by
  obtain ⟨_, hn, hd, he⟩ := eq_append_of_repeatSuffix? h
  exact ⟨base, digits, hn, hd, he⟩

theorem repeatSuffix?_eq_none {text : List Char} (h : ¬ EndsInCount text) :
    repeatSuffix? text = none := by
  cases hs : repeatSuffix? text with
  | none => rfl
  | some found => exact absurd (endsInCount_of_repeatSuffix? hs) h

theorem EndsInCount.last_isDigit {text : List Char} (h : EndsInCount text) :
    ∃ c, text.getLast? = some c ∧ isDigit c = true := by
  obtain ⟨front, digits, hn, hd, rfl⟩ := h
  refine ⟨digits.getLast hn, ?_, hd _ (List.getLast_mem hn)⟩
  rw [List.getLast?_append_of_ne_nil _ (by simp), List.getLast?_cons,
    List.getLast?_eq_some_getLast hn]
  rfl

theorem EndsInCount.of_append {front back : List Char} {sep : Char}
    (h : EndsInCount (front ++ sep :: back)) (ha : sep ≠ '*') (hs : isDigit sep = false) :
    EndsInCount back := by
  obtain ⟨start, digits, hn, hd, he⟩ := h
  rcases List.append_eq_append_iff.mp he with ⟨more, hm, hr⟩ | ⟨more, hm, hr⟩
  · rcases List.cons_eq_append_iff.mp hr with ⟨_, hc⟩ | ⟨rest, _, rfl⟩
    · exact absurd (List.cons.inj hc).1.symm ha
    · exact ⟨rest, digits, hn, hd, rfl⟩
  · rcases List.cons_eq_append_iff.mp hr with ⟨_, hc⟩ | ⟨rest, _, rfl⟩
    · exact absurd (List.cons.inj hc).1 ha
    · simpa [hs] using hd sep (by simp)

end StepSequencer
