import StepSequencer.Proofs.Subdivision

/-! A tree has no more hits than it has words, each counted as often as it is played. -/

namespace StepSequencer

namespace Token

mutual

/-- The words of a tree that may sound, each as often as it is played. -/
def onsets : Token → Nat
  | .rest => 0
  | .atomic _ => 1
  | .repeated base count => count.toNat * base.onsets
  | .bracketed inner => inner.onsets
  | .alternation [] => 0
  | .alternation (first :: _) => first.onsets
  | .sequence elements => onsetsAll elements

def onsetsAll : List Token → Nat
  | [] => 0
  | first :: more => first.onsets + onsetsAll more

end

theorem onsetsAll_eq (tokens : List Token) : onsetsAll tokens = (tokens.map onsets).sum := by
  induction tokens with
  | nil => rfl
  | cons first more ih => rw [onsetsAll, ih, List.map_cons, List.sum_cons]

theorem count_silence (width : Nat) : (silence width).count true = 0 := by
  simp [silence, List.count_replicate]

theorem count_flatMap_le {part : Nat → List Bool} {bound : Nat}
    (h : ∀ index, (part index).count true ≤ bound) (turns : Nat) :
    ((List.range turns).flatMap part).count true ≤ turns * bound := by
  induction turns with
  | zero => simp
  | succ turns ih =>
    have hp := h turns
    rw [List.range_succ, List.flatMap_append, List.flatMap_singleton, List.count_append,
      Nat.succ_mul]
    omega

theorem count_subdivideParts_le {elements : List Token} {width parts : Nat} (index : Nat)
    (h : ∀ element ∈ elements, ∀ width, (element.subdivide width).count true ≤ element.onsets) :
    (Token.subdivideParts elements width parts index).count true ≤ onsetsAll elements := by
  induction elements generalizing index with
  | nil => simp [Token.subdivideParts]
  | cons first more ih =>
    have hf := h first List.mem_cons_self (partWidth width parts index)
    have hm := ih (index + 1) fun element he => h element (List.mem_cons_of_mem _ he)
    rw [Token.subdivideParts, List.count_append, onsetsAll]
    omega

/-- Quantizing adds no hit. -/
theorem count_subdivide_le (token : Token) (width : Nat) :
    (token.subdivide width).count true ≤ token.onsets := by
  induction token generalizing width with
  | rest => exact (count_silence width).le
  | atomic text =>
    cases width with
    | zero => simp [Token.subdivide, onset]
    | succ width => simp [Token.subdivide, onset, onsets, count_silence]
  | repeated base count ih =>
    rw [Token.subdivide]
    split
    · rw [count_silence]
      exact Nat.zero_le _
    · exact count_flatMap_le (fun _ => ih _) _
  | bracketed inner ih => exact ih width
  | alternation choices ih =>
    cases choices with
    | nil => exact (count_silence width).le
    | cons first more => exact ih first List.mem_cons_self width
  | sequence elements ih =>
    cases elements with
    | nil => exact (count_silence width).le
    | cons first more => exact count_subdivideParts_le 0 ih

end Token

end StepSequencer
