import StepSequencer.Pattern.Subdivision
import StepSequencer.Proofs.Span

/-! Expanding a tree writes each part of its span once, so that the row it fills is the plain
subdivision of the span. -/

namespace StepSequencer

@[simp]
theorem length_silence (width : Nat) : (silence width).length = width := List.length_replicate

@[simp]
theorem silence_zero : silence 0 = [] := rfl

@[simp]
theorem length_onset (width : Nat) : (onset width).length = width := by
  cases width <;> simp [onset]

theorem drop_silence (width start : Nat) : (silence width).drop start = silence (width - start) :=
  List.drop_replicate

theorem overwrite_next {done rest steps : List Bool} {start : Nat} (hs : done.length = start)
    (hl : steps.length ≤ rest.length) :
    overwrite (done ++ rest) start steps = done ++ steps ++ rest.drop steps.length := by
  subst hs
  have hd : (done ++ rest).drop (done.length + steps.length) = rest.drop steps.length := by
    rw [← List.drop_drop, List.drop_left]
  have ht : steps.take ((done ++ rest).length - done.length) = steps :=
    List.take_of_length_le (by simp only [List.length_append]; omega)
  rw [overwrite, List.take_left, ht, hd]

theorem overwrite_part {width parts index : Nat} {done steps : List Bool} (hp : 0 < parts)
    (hi : index < parts) (hd : done.length = partStart width parts index)
    (hs : steps.length = partWidth width parts index) :
    overwrite (done ++ silence (width - partStart width parts index))
        (partStart width parts index) steps =
      done ++ steps ++ silence (width - partStart width parts (index + 1)) := by
  have hw := partStart_add_partWidth width parts index
  have hl := partStart_le width hp (show index + 1 ≤ parts from hi)
  rw [overwrite_next hd (by simp only [length_silence]; omega), drop_silence]
  congr 2
  omega

theorem length_flatMap_parts {width parts : Nat} {part : Nat → List Bool} (hp : 0 < parts)
    (hl : ∀ index, (part index).length = partWidth width parts index) (upTo : Nat) :
    ((List.range upTo).flatMap part).length = partStart width parts upTo := by
  induction upTo with
  | zero => simp [partStart_zero width hp]
  | succ upTo ih =>
    simp only [List.range_succ, List.flatMap_append, List.flatMap_singleton, List.length_append,
      ih, hl, partStart_add_partWidth]

/-- The invariant of a loop over the parts of a span: what it wrote is followed by silence. -/
theorem foldl_parts {width parts : Nat} (write : List Bool → Nat → List Bool)
    {part : Nat → List Bool} (hp : 0 < parts)
    (hl : ∀ index, (part index).length = partWidth width parts index)
    (hw : ∀ done index, index < parts → done.length = partStart width parts index →
      write (done ++ silence (width - partStart width parts index)) index =
        done ++ part index ++ silence (width - partStart width parts (index + 1)))
    {upTo : Nat} (hu : upTo ≤ parts) :
    (List.range upTo).foldl write (silence width) =
      (List.range upTo).flatMap part ++ silence (width - partStart width parts upTo) := by
  induction upTo with
  | zero => simp [partStart_zero width hp]
  | succ upTo ih =>
    rw [List.range_succ, List.foldl_append, ih (by omega), List.foldl_cons, List.foldl_nil,
      hw _ _ (by omega) (length_flatMap_parts hp hl upTo), List.flatMap_append,
      List.flatMap_singleton]

/-- The plain loop over the turns of a repeated base, with neither of its shortcuts. -/
def Token.playEach (base : Token) (width turns : Nat) : List Bool :=
  (List.range turns).foldl
    (fun row index => overwrite row (partStart width turns index)
      (base.expand (partWidth width turns index)))
    (silence width)

theorem foldl_overwrite_parts {width parts : Nat} {part : Nat → List Bool} (hp : 0 < parts)
    (hl : ∀ index, (part index).length = partWidth width parts index) :
    (List.range parts).foldl
        (fun row index => overwrite row (partStart width parts index) (part index))
        (silence width) = (List.range parts).flatMap part := by
  have hh := foldl_parts
    (fun row index => overwrite row (partStart width parts index) (part index)) hp hl
    (fun _ index hi hd => overwrite_part hp hi hd (hl index)) (Nat.le_refl _)
  simpa only [partStart_self width hp, Nat.sub_self, silence_zero, List.append_nil] using hh

/-- Where each part has a step, single hits are the onsets of the parts. -/
theorem pulses_eq_flatMap {width parts : Nat} (hp : 0 < parts) (hw : parts ≤ width) :
    pulses width parts =
      (List.range parts).flatMap fun index => onset (partWidth width parts index) := by
  have hset : ∀ done index, index < parts → done.length = partStart width parts index →
      (done ++ silence (width - partStart width parts index)).set (partStart width parts index)
          true =
        done ++ onset (partWidth width parts index) ++
          silence (width - partStart width parts (index + 1)) := by
    intro done index hi hd
    have ha := partStart_add_partWidth width parts index
    have hl := partStart_le width hp (show index + 1 ≤ parts from hi)
    obtain ⟨more, hm⟩ : ∃ more, partWidth width parts index = more + 1 :=
      ⟨_, (Nat.succ_pred_eq_of_pos (partWidth_pos index hp hw)).symm⟩
    have hr : width - partStart width parts index =
        more + (width - partStart width parts (index + 1)) + 1 := by omega
    rw [← hd, List.set_append_right _ _ (Nat.le_refl _), Nat.sub_self, hd, hr, hm, onset,
      List.append_assoc, List.cons_append, silence, silence, silence, List.replicate_succ,
      List.set_cons_zero, List.replicate_append_replicate]
  have hh := foldl_parts (fun row index => row.set (partStart width parts index) true) hp
    (fun _ => length_onset _) hset (Nat.le_refl _)
  simpa only [pulses, partStart_self width hp, Nat.sub_self, silence_zero, List.append_nil] using hh

theorem flatMap_parts_eq_replicate {width parts : Nat} {fill : Nat → List Bool} (hp : 0 < parts)
    (hw : width ≤ parts) (hf : fill 0 = []) (upTo : Nat) :
    ((List.range upTo).flatMap fun index => fill (partWidth width parts index)) =
      (List.replicate (partStart width parts upTo) (fill 1)).flatten := by
  induction upTo with
  | zero => simp [partStart_zero width hp]
  | succ upTo ih =>
    rw [List.range_succ, List.flatMap_append, ih, List.flatMap_singleton,
      ← partStart_add_partWidth]
    rcases Nat.le_one_iff_eq_zero_or_eq_one.mp (partWidth_le_one upTo hp hw) with hz | ho
    · simp [hz, hf]
    · simp [ho, List.replicate_succ']

theorem Token.length_subdivideParts {elements : List Token} {width parts index : Nat}
    (h : ∀ element ∈ elements, ∀ width, (element.subdivide width).length = width) :
    partStart width parts index + (Token.subdivideParts elements width parts index).length =
      partStart width parts (index + elements.length) := by
  induction elements generalizing index with
  | nil => simp [Token.subdivideParts]
  | cons element more ih =>
    have hi := @ih (index + 1) fun other ho => h other (List.mem_cons_of_mem _ ho)
    have ha := partStart_add_partWidth width parts index
    rw [Token.subdivideParts, List.length_append, h element List.mem_cons_self, List.length_cons,
      ← Nat.add_assoc, ha, hi]
    congr 1
    omega

theorem Token.length_subdivide (token : Token) (width : Nat) :
    (token.subdivide width).length = width := by
  induction token generalizing width with
  | rest => exact length_silence width
  | atomic text => exact length_onset width
  | repeated base count ih =>
    rw [Token.subdivide]
    split
    · exact length_silence width
    · have hp : 0 < count.toNat := by omega
      rw [length_flatMap_parts hp (fun _ => ih _), partStart_self width hp]
  | bracketed inner ih => exact ih width
  | alternation choices ih =>
    cases choices with
    | nil => exact length_silence width
    | cons first more => exact ih first List.mem_cons_self width
  | sequence elements ih =>
    cases elements with
    | nil => exact length_silence width
    | cons first more =>
      have hp : 0 < more.length + 1 := Nat.succ_pos _
      have hl := @Token.length_subdivideParts (first :: more) width (more.length + 1) 0 ih
      simpa only [Token.subdivide, List.length_cons, Nat.zero_add, partStart_zero width hp,
        partStart_self width hp] using hl

theorem Token.subdivide_zero (token : Token) : token.subdivide 0 = [] :=
  List.length_eq_zero_iff.mp (token.length_subdivide 0)

/-- The elements of a sequence are written one after another, each right after what is done. -/
theorem Token.expandParts_eq {elements : List Token} {width parts index : Nat} {done : List Bool}
    (h : ∀ element ∈ elements, ∀ width, element.expand width = element.subdivide width)
    (hp : 0 < parts) (hi : index + elements.length ≤ parts)
    (hd : done.length = partStart width parts index) :
    Token.expandParts elements width parts index
        (done ++ silence (width - partStart width parts index)) =
      done ++ Token.subdivideParts elements width parts index ++
        silence (width - partStart width parts (index + elements.length)) := by
  induction elements generalizing index done with
  | nil => simp [Token.expandParts, Token.subdivideParts]
  | cons element more ih =>
    simp only [List.length_cons] at hi
    have hs := element.length_subdivide (partWidth width parts index)
    have hn : (done ++ element.subdivide (partWidth width parts index)).length =
        partStart width parts (index + 1) := by
      rw [List.length_append, hd, hs, partStart_add_partWidth]
    have hm := ih (fun other ho => h other (List.mem_cons_of_mem _ ho)) (by omega) hn
    have hr : (if partWidth width parts index = 0 then
          done ++ silence (width - partStart width parts index)
        else overwrite (done ++ silence (width - partStart width parts index))
          (partStart width parts index) (element.expand (partWidth width parts index))) =
        done ++ element.subdivide (partWidth width parts index) ++
          silence (width - partStart width parts (index + 1)) := by
      split
      next hz =>
        have ha := partStart_add_partWidth width parts index
        rw [hz, Token.subdivide_zero, List.append_nil, ← ha, hz, Nat.add_zero]
      next =>
        rw [h element List.mem_cons_self, overwrite_part hp (by omega) hd hs]
    have hx : index + 1 + more.length = index + (more.length + 1) := by omega
    rw [Token.expandParts, hr, hm, Token.subdivideParts, List.length_cons, hx,
      List.append_assoc done]

theorem Token.flatMap_turns (base : Token) (width : Nat) {turns : Nat} (hp : 0 < turns)
    (hw : width ≤ turns) :
    ((List.range turns).flatMap fun index => base.subdivide (partWidth width turns index)) =
      (List.replicate width (base.subdivide 1)).flatten := by
  have hh := flatMap_parts_eq_replicate hp hw base.subdivide_zero turns
  rwa [partStart_self width hp] at hh

theorem Token.subdivide_repeated (base : Token) (width : Nat) {count : Int} (hc : 0 < count) :
    (Token.repeated base count).subdivide width = (List.range count.toNat).flatMap fun index =>
      base.subdivide (partWidth width count.toNat index) := by
  rw [Token.subdivide, if_neg (by omega)]

theorem Token.playEach_eq {base : Token} {width turns : Nat} (hp : 0 < turns)
    (h : ∀ width, base.expand width = base.subdivide width) :
    base.playEach width turns = (List.range turns).flatMap fun index =>
      base.subdivide (partWidth width turns index) := by
  simp only [Token.playEach, h]
  exact foldl_overwrite_parts hp fun index => base.length_subdivide _

theorem Token.expand_repeated {base : Token} (width : Nat) (count : Int)
    (h : ∀ width, base.expand width = base.subdivide width) :
    (Token.repeated base count).expand width = (Token.repeated base count).subdivide width := by
  by_cases hc : count ≤ 0
  · rw [Token.subdivide, if_pos hc]
    cases base <;> simp [Token.expand, hc]
  by_cases hz : width = 0
  · subst hz
    rw [Token.subdivide_zero]
    cases base <;> simp [Token.expand]
  have hp : 0 < count.toNat := by omega
  have hn : ¬ (count ≤ 0 ∨ width = 0) := by simp [hc, hz]
  rw [Token.subdivide_repeated base width (by omega)]
  by_cases hl : (width : Int) ≤ count
  · rw [Token.flatMap_turns base width hp (by omega), ← h]
    cases base <;> simp only [Token.expand, if_neg hn, ge_iff_le, if_pos hl]
  · rw [← Token.playEach_eq hp h]
    cases base with
    | atomic text =>
      have hs : (Token.repeated (.atomic text) count).expand width = pulses width count.toNat := by
        simp only [Token.expand, if_neg hn, ge_iff_le, if_neg hl]
      rw [hs, Token.playEach_eq hp h, pulses_eq_flatMap hp (by omega)]
      rfl
    | _ => simp only [Token.expand, if_neg hn, ge_iff_le, if_neg hl, Token.playEach]

/-- Neither the shortcuts of a repeat nor the writing in place is heard. -/
theorem Token.expand_eq_subdivide (token : Token) (width : Nat) :
    token.expand width = token.subdivide width := by
  induction token generalizing width with
  | rest => rfl
  | atomic text => rfl
  | repeated base count ih => exact Token.expand_repeated width count ih
  | bracketed inner ih => exact ih width
  | alternation choices ih =>
    cases choices with
    | nil => rfl
    | cons first more => exact ih first List.mem_cons_self width
  | sequence elements ih =>
    cases elements with
    | nil => rfl
    | cons first more =>
      have hp : 0 < more.length + 1 := Nat.succ_pos _
      have hh := @Token.expandParts_eq (first :: more) width (more.length + 1) 0 [] ih hp (by simp)
        (by simp [partStart_zero width hp])
      simpa only [Token.expand, Token.subdivide, List.length_cons, List.nil_append, Nat.zero_add,
        partStart_zero width hp, partStart_self width hp, Nat.sub_zero, Nat.sub_self, silence_zero,
        List.append_nil] using hh

theorem Token.length_expand (token : Token) (width : Nat) : (token.expand width).length = width := by
  rw [token.expand_eq_subdivide, token.length_subdivide]

theorem Token.subdivide_sequence (elements : List Token) (width : Nat) :
    (Token.sequence elements).subdivide width =
      if elements = [] then silence width
      else Token.subdivideParts elements width elements.length 0 := by
  cases elements <;> rfl

theorem Token.subdivideParts_append (before after : List Token) (width parts index : Nat) :
    Token.subdivideParts (before ++ after) width parts index =
      Token.subdivideParts before width parts index ++
        Token.subdivideParts after width parts (index + before.length) := by
  induction before generalizing index with
  | nil => simp [Token.subdivideParts]
  | cons first more ih =>
    rw [List.cons_append, Token.subdivideParts, Token.subdivideParts, ih, List.append_assoc,
      List.length_cons, Nat.add_assoc, Nat.add_comm 1]

theorem Token.subdivideParts_mul {elements : List Token} {parts : Nat} (width index : Nat)
    (hp : 0 < parts) :
    Token.subdivideParts elements (parts * width) parts index =
      elements.flatMap (·.subdivide width) := by
  induction elements generalizing index with
  | nil => rfl
  | cons first more ih => rw [Token.subdivideParts, ih, partWidth_mul width index hp, List.flatMap_cons]

theorem Token.subdivide_sequence_mul (elements : List Token) (width : Nat) :
    (Token.sequence elements).subdivide (elements.length * width) =
      elements.flatMap (·.subdivide width) := by
  rw [Token.subdivide_sequence]
  split
  next hn => simp [hn]
  next hn => exact Token.subdivideParts_mul width 0 (List.length_pos_iff.mpr hn)

theorem Token.part_of_sequence (before : List Token) (token : Token) (after : List Token)
    (width : Nat) :
    (((Token.sequence (before ++ token :: after)).subdivide width).drop
        (partStart width (before ++ token :: after).length before.length)).take
        (partWidth width (before ++ token :: after).length before.length) =
      token.subdivide (partWidth width (before ++ token :: after).length before.length) := by
  have hp : 0 < (before ++ token :: after).length := by simp
  have hb := @Token.length_subdivideParts before width (before ++ token :: after).length 0
    fun element _ => element.length_subdivide
  rw [partStart_zero width hp, Nat.zero_add, Nat.zero_add] at hb
  rw [Token.subdivide_sequence, if_neg (by simp), Token.subdivideParts_append,
    List.drop_left' hb, Nat.zero_add, Token.subdivideParts,
    List.take_left' (token.length_subdivide _)]

/-- Quantizing a tree is plain subdivision, at boundaries rounded half up. It gives just the steps
that are asked for, each element keeps its own part, and a repeat plays as its plain loop does,
however often. -/
theorem Token.steps_eq_subdivide (token : Token) (count : Int) :
    token.steps count = token.subdivide (max count 0).toNat ∧
    (∀ width parts index : Nat, (partStart width (parts + 1) index : Int) =
      round ((index * width : ℚ) / (parts + 1 : Nat))) ∧
    ((token.steps count).length : Int) = max count 0 ∧
    (∀ before after : List Token,
      let elements := before ++ token :: after
      (((Token.sequence elements).steps count).drop
          (partStart count.toNat elements.length before.length)).take
          (partWidth count.toNat elements.length before.length) =
        token.steps (partWidth count.toNat elements.length before.length)) ∧
    ∀ turns : Nat, (Token.repeated token (turns + 1 : Nat)).steps count =
      token.playEach count.toNat (turns + 1) := by
  have hm : (max count 0).toNat = count.toNat := by omega
  refine ⟨?_, ?_, ?_, ?_, ?_⟩
  · rw [hm]
    exact token.expand_eq_subdivide _
  · exact fun width parts index => partStart_eq_round width index (Nat.succ_pos parts)
  · rw [Token.steps, token.length_expand]
    omega
  · intro before after
    simp only [Token.steps, Token.expand_eq_subdivide, Int.toNat_natCast]
    exact Token.part_of_sequence before token after count.toNat
  · intro turns
    have hp : 0 < turns + 1 := Nat.succ_pos turns
    rw [Token.steps, Token.expand_eq_subdivide, Token.subdivide_repeated _ _ (by omega),
      Token.playEach_eq hp token.expand_eq_subdivide, Int.toNat_natCast]

end StepSequencer
