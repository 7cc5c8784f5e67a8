import StepSequencer.Proofs.Subdivision

/-! Trees that divide their span evenly. The hits of such a tree do not depend on the resolution, but
for the scale of the steps that they are counted in. -/

namespace StepSequencer

namespace Token

/-- Each part that the tree cuts its span into has a whole number of steps. -/
inductive Fits : Token → (width : Nat) → Prop
  | rest (width : Nat) : Fits .rest width
  | atomic (text : String) (width : Nat) : Fits (.atomic text) width
  | bracketed {inner : Token} {width : Nat} (h : Fits inner width) : Fits (.bracketed inner) width
  | noChoice (width : Nat) : Fits (.alternation []) width
  | choice {first : Token} (more : List Token) {width : Nat} (h : Fits first width) :
    Fits (.alternation (first :: more)) width
  | unplayed (base : Token) {count : Int} (width : Nat) (hc : count ≤ 0) :
    Fits (.repeated base count) width
  | repeated {base : Token} {count : Int} {width : Nat} (hc : 0 < count)
    (hd : count.toNat ∣ width) (h : Fits base (width / count.toNat)) :
    Fits (.repeated base count) width
  | noElement (width : Nat) : Fits (.sequence []) width
  | sequence {elements : List Token} {width : Nat} (hd : elements.length ∣ width)
    (h : ∀ element ∈ elements, Fits element (width / elements.length)) :
    Fits (.sequence elements) width

end Token

/-- The row with several steps in place of each of its steps, the hit on the first of them. -/
def widen (factor : Nat) (row : List Bool) : List Bool :=
  row.flatMap fun on => if on then onset factor else silence factor

theorem widen_silence (factor width : Nat) :
    widen factor (silence width) = silence (factor * width) := by
  induction width with
  | zero => rfl
  | succ width ih =>
    have hs : silence (width + 1) = false :: silence width := rfl
    have hf : widen factor (false :: silence width) = silence factor ++ widen factor (silence width) :=
      rfl
    rw [hs, hf, ih, silence, silence, silence, List.replicate_append_replicate, Nat.mul_succ,
      Nat.add_comm]

section Factor

variable {factor : Nat}

theorem onset_append_silence (hf : 0 < factor) (width : Nat) :
    onset factor ++ silence width = onset (factor + width) := by
  obtain ⟨before, rfl⟩ := Nat.exists_eq_add_one_of_ne_zero hf.ne'
  rw [Nat.add_right_comm, onset, onset, silence, silence, silence, List.cons_append,
    List.replicate_append_replicate]

theorem widen_onset (hf : 0 < factor) (width : Nat) :
    widen factor (onset width) = onset (factor * width) := by
  cases width with
  | zero => rfl
  | succ width =>
    have ho : widen factor (onset (width + 1)) = onset factor ++ widen factor (silence width) := rfl
    rw [ho, widen_silence, onset_append_silence hf, Nat.mul_succ, Nat.add_comm]

theorem widen_flatMap {α : Type} (items : List α) (part : α → List Bool) :
    widen factor (items.flatMap part) = items.flatMap fun item => widen factor (part item) :=
  List.flatMap_assoc

theorem idxsOf_silence (width start : Nat) : (silence width).idxsOf true start = [] := by
  rw [List.idxsOf_eq_nil_iff]
  intro on hm
  rw [List.eq_of_mem_replicate hm]
  rfl

theorem idxsOf_onset (hf : 0 < factor) (start : Nat) :
    (onset factor).idxsOf true start = [start] := by
  obtain ⟨before, rfl⟩ := Nat.exists_eq_add_one_of_ne_zero hf.ne'
  rw [onset, List.idxsOf_cons, idxsOf_silence]
  rfl

theorem idxsOf_widen (hf : 0 < factor) (row : List Bool) (start : Nat) :
    (widen factor row).idxsOf true (factor * start) =
      (row.idxsOf true start).map (factor * ·) := by
  induction row generalizing start with
  | nil => rfl
  | cons on rest ih =>
    have hw : widen factor (on :: rest) =
        (if on then onset factor else silence factor) ++ widen factor rest := rfl
    have hl : (if on then onset factor else silence factor).length = factor := by
      split
      · exact length_onset factor
      · exact length_silence factor
    rw [hw, List.idxsOf_append, hl, ← Nat.mul_succ, ih, List.idxsOf_cons]
    cases on with
    | true => simp [idxsOf_onset hf]
    | false => simp [idxsOf_silence]

namespace Token

/-- On a finer span the tree fills a wider row of the same hits. -/
theorem Fits.subdivide_mul {token : Token} {width : Nat} (h : token.Fits width) (hf : 0 < factor) :
    token.subdivide (factor * width) = widen factor (token.subdivide width) := by
  induction h with
  | rest width => exact (widen_silence factor width).symm
  | atomic text width => exact (widen_onset hf width).symm
  | bracketed _ ih => exact ih
  | noChoice width => exact (widen_silence factor width).symm
  | choice _ _ ih => exact ih
  | unplayed base width hc =>
    rw [Token.subdivide, Token.subdivide, if_pos hc, if_pos hc, widen_silence]
  | @repeated base count width hc hd _ ih =>
    have hp : 0 < count.toNat := by omega
    obtain ⟨part, rfl⟩ := hd
    rw [Nat.mul_div_cancel_left part hp] at ih
    rw [Nat.mul_left_comm, Token.subdivide_repeated _ _ hc, Token.subdivide_repeated _ _ hc,
      widen_flatMap]
    simp only [partWidth_mul _ _ hp, ih]
  | noElement width => exact (widen_silence factor width).symm
  | @sequence elements width hd _ ih =>
    by_cases hn : elements = []
    · subst hn
      exact (widen_silence factor width).symm
    · obtain ⟨part, rfl⟩ := hd
      rw [Nat.mul_div_cancel_left part (List.length_pos_iff.mpr hn)] at ih
      rw [Nat.mul_left_comm, Token.subdivide_sequence_mul, Token.subdivide_sequence_mul,
        widen_flatMap]
      exact List.flatMap_congr ih

/-- When each step of a span that the tree fits is cut into several, the hits keep their places and
their order. -/
theorem Fits.idxsOf_steps {token : Token} {width : Nat} (h : token.Fits width) (hf : 0 < factor) :
    (token.steps (factor * width : Nat)).idxsOf true =
      ((token.steps width).idxsOf true).map (factor * ·) := by
  rw [Token.steps, Token.steps, Token.expand_eq_subdivide, Token.expand_eq_subdivide,
    Int.toNat_natCast, Int.toNat_natCast, h.subdivide_mul hf]
  exact idxsOf_widen hf (token.subdivide width) 0

/-- A sound played twice in two steps fills both of them, but of ten steps the first and the sixth. -/
theorem Fits.idxsOf_steps_fivefold :
    let word : Token := .atomic "hh"
    let token : Token := .repeated
      (.sequence [.alternation [word, .sequence [word, word, word]], .bracketed (.repeated word 2)]) 3
    token.Fits 12 ∧ 0 < 5 ∧ (token.steps 12).idxsOf true = [0, 2, 3, 4, 6, 7, 8, 10, 11] ∧
      (token.steps 60).idxsOf true = [0, 10, 15, 20, 30, 35, 40, 50, 55] := by
  intro word token
  have hw : ∀ width, word.Fits width := .atomic "hh"
  have hr : (Token.repeated word 2).Fits 2 := .repeated (by decide) (by decide) (hw _)
  have hs : (Token.sequence [.alternation [word, .sequence [word, word, word]],
      .bracketed (.repeated word 2)]).Fits 4 :=
    .sequence (by decide) (by simpa using ⟨.choice _ (hw _), .bracketed hr⟩)
  have ht : token.Fits 12 := .repeated (by decide) (by decide) hs
  have hh : (token.steps 12).idxsOf true = [0, 2, 3, 4, 6, 7, 8, 10, 11] := by decide
  refine ⟨ht, by decide, hh, (@Fits.idxsOf_steps 5 token 12 ht (by decide)).trans ?_⟩
  rw [show ((12 : Nat) : Int) = 12 from rfl, hh]
  rfl

end Token

end Factor

end StepSequencer
