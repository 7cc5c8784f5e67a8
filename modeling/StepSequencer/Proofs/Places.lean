import StepSequencer.Pattern.Placing
import StepSequencer.Proofs.Subdivision

/-! An expansion never fails: a span is cut into parts only where there are some, and each step that
is written has its place in the row. -/

namespace StepSequencer

section Lists

variable {α β ε : Type}

theorem itemAt_of_lt {items : List α} {index : Nat} (h : index < items.length) :
    itemAt items index = .ok items[index] := by
  simp [itemAt, h, Int.not_lt.mpr (Int.natCast_nonneg index)]

theorem replaceAt_of_lt {items : List α} {index : Nat} (h : index < items.length) (item : α) :
    replaceAt items index item = .ok (items.set index item) := by
  rw [replaceAt, itemAt_of_lt h, if_neg (Int.not_lt.mpr (Int.natCast_nonneg index))]
  rfl

/-- A run does not fail if no step fails in a state that the steps before it have kept. -/
theorem foldlM_eq_ok {items : List α} {tryStep : β → α → Except ε β} {step : β → α → β}
    (Keeps : β → Prop) {state : β} (hs : Keeps state)
    (h : ∀ state, Keeps state → ∀ item ∈ items,
      tryStep state item = .ok (step state item) ∧ Keeps (step state item)) :
    items.foldlM tryStep state = .ok (items.foldl step state) := by
  induction items generalizing state with
  | nil => rfl
  | cons item more ih =>
    obtain ⟨hi, hk⟩ := h state hs item List.mem_cons_self
    rw [List.foldlM_cons, hi]
    exact ih hk fun state hs other ho => h state hs other (List.mem_cons_of_mem _ ho)

end Lists

theorem tryBoundary_eq {parts : Nat} (width index : Nat) (hp : 0 < parts) :
    tryBoundary index width parts = .ok (partStart width parts index) := by
  rw [tryBoundary, boundary?, if_neg (by omega), boundary_natCast]

theorem tryBoundary_succ_eq {parts : Nat} (width index : Nat) (hp : 0 < parts) :
    tryBoundary (index + 1) width parts = .ok (partStart width parts (index + 1)) :=
  tryBoundary_eq width (index + 1) hp

theorem overwrite_of_length_le {row : List Bool} {start : Nat} (h : row.length ≤ start)
    (steps : List Bool) : overwrite row start steps = row := by
  rw [overwrite, Nat.sub_eq_zero_of_le h, List.take_zero, List.take_of_length_le h,
    List.drop_of_length_le (Nat.le_add_right_of_le h), List.append_nil, List.append_nil]

theorem overwrite_cons {row : List Bool} {start : Nat} (h : start < row.length) (step : Bool)
    (more : List Bool) :
    overwrite row start (step :: more) = overwrite (row.set start step) (start + 1) more := by
  have ht : (row.set start step).take (start + 1) = row.take start ++ [step] := by
    rw [List.take_add_one, List.take_set_of_le (Nat.le_refl start)]
    simp [h]
  have hd : (row.set start step).drop (start + 1 + more.length) =
      row.drop (start + (more.length + 1)) := by
    rw [List.drop_set_of_lt (by omega)]
    congr 1
    omega
  have hl : row.length - start = row.length - (start + 1) + 1 := by omega
  simp only [overwrite, ht, hd, hl, List.length_set, List.length_cons, List.take_succ_cons,
    List.append_assoc, List.cons_append, List.nil_append]

theorem tryOverwrite_eq (row : List Bool) (start : Nat) (steps : List Bool) :
    tryOverwrite row start steps = .ok (overwrite row start steps) := by
  induction steps generalizing row start with
  | nil => simp [tryOverwrite, overwrite]
  | cons step more ih =>
    rw [tryOverwrite]
    split
    next hl => rw [overwrite_of_length_le (by omega)]
    next hl =>
      have hs : start < row.length := by omega
      rw [replaceAt_of_lt hs, overwrite_cons hs]
      exact ih (row.set start step) (start + 1)

/-- Where there are no more parts than steps, each part begins before the end of the span. -/
theorem tryPulses_eq {width parts : Nat} (hp : 0 < parts) (hw : parts ≤ width) :
    tryPulses width parts = .ok (pulses width parts) := by
  refine foldlM_eq_ok (fun row => row.length = width) (length_silence width) ?_
  intro row hl index hm
  have hi : index < parts := List.mem_range.mp hm
  have hs : partStart width parts index < width := by
    have ha := partStart_add_partWidth width parts index
    have hn := partStart_le width hp (show index + 1 ≤ parts from hi)
    have hw := partWidth_pos index hp hw
    omega
  refine ⟨?_, by rw [List.length_set, hl]⟩
  rw [tryBoundary_eq width index hp]
  exact replaceAt_of_lt (hl ▸ hs) true

theorem sub_partStart (width parts index : Nat) :
    (partStart width parts (index + 1) : Int) - partStart width parts index =
      partWidth width parts index := by
  have ha := partStart_add_partWidth width parts index
  omega

/-- The tree finds every place that it writes to, whatever the width of its span. -/
def Token.Placed (token : Token) : Prop :=
  ∀ width : Nat, token.tryExpand width = .ok (token.expand width)

theorem Token.tryExpandParts_eq {elements : List Token} (h : ∀ element ∈ elements, element.Placed)
    {parts : Nat} (width index : Nat) (row : List Bool) (hp : 0 < parts) :
    Token.tryExpandParts elements width parts index row =
      .ok (Token.expandParts elements width parts index row) := by
  induction elements generalizing index row with
  | nil => rfl
  | cons element more ih =>
    have hm := ih (fun other ho => h other (List.mem_cons_of_mem _ ho)) (index + 1)
    have ha := partStart_add_partWidth width parts index
    rw [Token.tryExpandParts, Token.expandParts, tryBoundary_eq width index hp,
      tryBoundary_succ_eq width index hp]
    simp only [Bind.bind, Except.bind, sub_partStart, h element List.mem_cons_self _,
      tryOverwrite_eq]
    by_cases hz : partWidth width parts index = 0
    · rw [if_pos (by omega), if_pos hz]
      exact hm row
    · rw [if_neg (by omega), if_neg hz]
      exact hm _

theorem Token.tryPlayEach_eq {base : Token} (h : base.Placed) (width : Nat) {turns : Nat}
    (hp : 0 < turns) :
    (List.range turns).foldlM (fun row (index : Nat) => do
        let start ← tryBoundary index width turns
        let stop ← tryBoundary (index + 1) width turns
        let steps ← base.tryExpand (stop - start)
        tryOverwrite row start steps) (silence width) = .ok (base.playEach width turns) := by
  refine foldlM_eq_ok (fun _ => True) trivial fun row _ index _ => ⟨?_, trivial⟩
  simp only [tryBoundary_eq width index hp, tryBoundary_succ_eq width index hp, Bind.bind,
    Except.bind, sub_partStart, h _, tryOverwrite_eq]

theorem Token.Placed.repeated {base : Token} (h : base.Placed) (count : Int) :
    (Token.repeated base count).Placed := by
  intro width
  by_cases hn : count ≤ 0 ∨ width = 0
  · have hi : count ≤ 0 ∨ (width : Int) = 0 := hn.imp_right (congrArg _)
    cases base <;> simp only [Token.tryExpand, Token.expand, if_pos hn, if_pos hi] <;> rfl
  have hi : ¬(count ≤ 0 ∨ (width : Int) = 0) := by omega
  by_cases hl : (width : Int) ≤ count
  · have he : (Token.repeated base count).tryExpand width =
        (base.tryExpand 1).map fun step => (List.replicate width step).flatten := by
      cases base <;> exact (if_neg hi).trans (if_pos hl)
    have ho : base.tryExpand 1 = .ok (base.expand 1) := h 1
    rw [he, ho]
    cases base <;> simp only [Token.expand, if_neg hn, ge_iff_le, if_pos hl] <;> rfl
  obtain ⟨turns, rfl⟩ := Int.eq_ofNat_of_zero_le (show 0 ≤ count by omega)
  have hp : 0 < turns := by omega
  cases base with
  | atomic text =>
    simp only [Token.tryExpand, Token.expand, if_neg hn, if_neg hi, ge_iff_le, if_neg hl]
    exact tryPulses_eq hp (by omega)
  | _ =>
    simp only [Token.tryExpand, Token.expand, if_neg hn, if_neg hi, ge_iff_le, if_neg hl]
    exact Token.tryPlayEach_eq h width hp

/-- Every tree does. -/
theorem Token.placed (token : Token) : token.Placed := by
  induction token with
  | rest => exact fun width => rfl
  | atomic text =>
    intro width
    cases width with
    | zero => rfl
    | succ width => exact (if_pos (by omega)).trans (replaceAt_of_lt (by simp) true)
  | repeated base count ih => exact ih.repeated count
  | bracketed inner ih => exact ih
  | alternation choices ih =>
    cases choices with
    | nil => exact fun width => rfl
    | cons first more => exact ih first List.mem_cons_self
  | sequence elements ih =>
    cases elements with
    | nil => exact fun width => rfl
    | cons first more =>
      intro width
      exact tryExpandParts_eq ih width 0 (silence width) (Nat.succ_pos _)

end StepSequencer
