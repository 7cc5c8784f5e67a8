import StepSequencer.Proofs.Segments

/-! Where a text is cut: at each separator before which as many brackets are closed as are opened.
No part is cut again, and the parts come back from the text that joins them. -/

namespace StepSequencer

/-- The places of the separators before which as many brackets are closed as are opened. -/
def cuts (isSep : Char → Bool) (text : List Char) : List Nat :=
  (List.range text.length).filter fun place =>
    text[place]?.any isSep && opened (text.take place) == closed (text.take place)

/-- The stretches of a text from a start on: one before each of several places, which it leaves out,
and one after the last of them. -/
def slices (text : List Char) : (start : Nat) → (places : List Nat) → List (List Char)
  | start, [] => [text.drop start]
  | start, place :: more =>
    (text.drop start).take (place - start) :: slices text (place + 1) more

/-- A splitting of texts at the separators where brackets are level. -/
structure SplitsAtLevel (isSep : Char → Bool) (split : List Char → List (List Char)) : Prop where
  /-- The parts are the stretches between the cuts, trimmed, but for those that are blank. -/
  split_eq : ∀ text, split text = ((slices text 0 (cuts isSep text)).map trim).filter (!·.isEmpty)
  split_append : ∀ front sep back, opened front = closed front → isSep sep = true →
    split (front ++ sep :: back) = split front ++ split back
  split_part : ∀ text, ∀ part ∈ split text, split part = [part]
  /-- Blanks may follow each separator that joins the parts. -/
  split_joined : ∀ text sep gap, isSep sep = true → (∀ c ∈ gap, isBlank c = true) →
    split ((sep :: gap).intercalate (split text)) = split text

section Cuts

variable {isSep : Char → Bool}

/-- The cuts of a text that begins at a given depth. -/
def cutsFrom (isSep : Char → Bool) (d : Int) (text : List Char) : List Nat :=
  (List.range text.length).filter fun place =>
    text[place]?.any isSep && d + depth (text.take place) == 0

theorem cuts_eq (isSep : Char → Bool) (text : List Char) :
    cuts isSep text = cutsFrom isSep 0 text := by
  refine List.filter_congr fun place _ => congrArg _ ?_
  rw [Int.zero_add, Bool.eq_iff_iff, beq_iff_eq, beq_iff_eq]
  exact depth_eq_zero_iff.symm

theorem cutsFrom_cons (d : Int) (c : Char) (rest : List Char) :
    cutsFrom isSep d (c :: rest) =
      (if isSep c = true ∧ d = 0 then [0] else []) ++
        (cutsFrom isSep (d + weight c) rest).map (· + 1) := by
  simp only [cutsFrom, List.length_cons, List.range_succ_eq_map, List.filter_cons, List.filter_map]
  split <;> split <;> simp_all [Function.comp_def, Int.add_assoc]

theorem slices_cons_succ (c : Char) (rest : List Char) (start : Nat) (places : List Nat) :
    slices (c :: rest) (start + 1) (places.map (· + 1)) = slices rest start places := by
  induction places generalizing start with
  | nil => rfl
  | cons place more ih =>
    rw [List.map_cons, slices, slices, ih, List.drop_succ_cons, Nat.add_sub_add_right]

theorem slices_cons_zero (c : Char) (rest : List Char) (places : List Nat) :
    slices (c :: rest) 0 (places.map (· + 1)) = (slices rest 0 places).modifyHead (c :: ·) := by
  cases places with
  | nil => rfl
  | cons place more =>
    rw [List.map_cons, slices, slices, slices_cons_succ]
    rfl

theorem stretches_eq_slices (hs : ∀ c, isSep c = true → weight c = 0) (d : Int)
    (text : List Char) : stretches isSep d text = slices text 0 (cutsFrom isSep d text) := by
  induction text generalizing d with
  | nil => rfl
  | cons c rest ih =>
    -- The scan looks at the depth after a separator, which is the depth before it.
    have hd : (d + weight c = 0 ∧ isSep c = true) ↔ (isSep c = true ∧ d = 0) := by
      constructor
      · rintro ⟨hz, hc⟩
        exact ⟨hc, by simpa [hs c hc] using hz⟩
      · rintro ⟨hc, rfl⟩
        exact ⟨by rw [hs c hc, Int.zero_add], hc⟩
    rw [stretches, cutsFrom_cons, ih]
    simp only [hd]
    split
    · rw [List.singleton_append, slices, slices_cons_succ]
      rfl
    · rw [List.nil_append, slices_cons_zero]

end Cuts

section Whole

variable {isSep : Char → Bool} {text part : List Char}

theorem depth_trim (text : List Char) : depth (trim text) = depth text := by
  obtain ⟨lead, trail, hl, ht, he⟩ := exists_trim text
  conv_rhs => rw [he, depth_append, depth_append, depth_of_blank hl, depth_of_blank ht,
    Int.zero_add, Int.add_zero]

theorem length_segments_le_one (h : Whole isSep text) : (segments isSep text).length ≤ 1 := by
  rw [h.segments_eq]
  exact List.length_filter_le _ _

theorem eq_trim_of_mem_segments (h : Whole isSep text) (hp : part ∈ segments isSep text) :
    part = trim text ∧ part ≠ [] := by
  rw [h.segments_eq, List.mem_filter, List.mem_singleton] at hp
  exact ⟨hp.1, by simpa using hp.2⟩

end Whole

section Parts

variable {isSep : Char → Bool} (hs : ∀ c, isSep c = true → weight c = 0)
include hs

theorem exists_cut (d : Int) (text : List Char) :
    stretches isSep d text = [text] ∨
      ∃ front sep back, text = front ++ sep :: back ∧ stretches isSep d front = [front] ∧
        d + depth front = 0 ∧ isSep sep = true := by
  induction text generalizing d with
  | nil => exact .inl rfl
  | cons c rest ih =>
    by_cases hc : d + weight c = 0 ∧ isSep c = true
    · exact .inr ⟨[], c, rest, rfl, rfl, by simpa [hs c hc.2] using hc.1, hc.2⟩
    · rcases ih (d + weight c) with h | ⟨front, sep, back, rfl, hf, hz, hp⟩
      · exact .inl (by rw [stretches, if_neg hc, h, List.modifyHead_cons])
      · refine .inr ⟨c :: front, sep, back, rfl, ?_, ?_, hp⟩
        · rw [stretches, if_neg hc, hf, List.modifyHead_cons]
        · rw [depth_cons, ← Int.add_assoc, hz]

/-- A text is whole, or it is cut first after a whole text that is level. -/
@[elab_as_elim]
theorem whole_induction {motive : List Char → Prop}
    (whole : ∀ text, Whole isSep text → motive text)
    (cut : ∀ front sep back, Whole isSep front → depth front = 0 → isSep sep = true →
      motive front → motive back → motive (front ++ sep :: back))
    (text : List Char) : motive text := by
  induction hn : text.length using Nat.strong_induction_on generalizing text with
  | _ n ih =>
    rcases exists_cut hs 0 text with h | ⟨front, sep, back, rfl, hf, hd, hp⟩
    · exact whole text h
    · have hl : back.length < n := by
        simp only [List.length_append, List.length_cons] at hn
        omega
      exact cut front sep back hf (by simpa using hd) hp (whole front hf) (ih _ hl back rfl)

theorem Whole.of_append (lead : List Char) {part trail : List Char}
    (h : Whole isSep (lead ++ (part ++ trail))) (hd : depth lead = 0) : Whole isSep part := by
  rcases exists_cut hs 0 part with hp | ⟨front, sep, back, rfl, _, hf, hsep⟩
  · exact hp
  · have ht : lead ++ (front ++ sep :: back ++ trail) =
        (lead ++ front) ++ sep :: (back ++ trail) := by simp
    have hz : (0 : Int) + depth (lead ++ front) = 0 := by rw [depth_append, hd]; omega
    rw [Whole, ht, stretches_append_sep _ hz hsep (hs sep hsep)] at h
    have hl := congrArg List.length h
    have hfront := List.length_pos_iff.mpr (stretches_ne_nil isSep 0 (lead ++ front))
    have hback := List.length_pos_iff.mpr (stretches_ne_nil isSep 0 (back ++ trail))
    rw [List.length_append, List.length_singleton] at hl
    omega

theorem Whole.trim {text : List Char} (h : Whole isSep text) : Whole isSep (trim text) := by
  obtain ⟨lead, trail, hl, _, he⟩ := exists_trim text
  rw [he] at h
  exact Whole.of_append hs lead h (depth_of_blank hl)

theorem whole_of_mem_segments {text part : List Char} (h : part ∈ segments isSep text) :
    Whole isSep part ∧ Trimmed part := by
  induction text using whole_induction hs with
  | whole text ht =>
    obtain ⟨rfl, hn⟩ := eq_trim_of_mem_segments ht h
    exact ⟨Whole.trim hs ht, trimmed_trim hn⟩
  | cut front sep back _ hd hsep ihf ihb =>
    rw [segments_append_sep back hd hsep (hs sep hsep), List.mem_append] at h
    exact h.elim ihf ihb

/-- A part that another follows is level. -/
theorem depth_of_mem_dropLast_segments {text part : List Char}
    (h : part ∈ (segments isSep text).dropLast) : depth part = 0 := by
  induction text using whole_induction hs with
  | whole text ht =>
    have hl := length_segments_le_one ht
    have hn := List.length_pos_of_mem h
    rw [List.length_dropLast] at hn
    omega
  | cut front sep back ht hd hsep ihf ihb =>
    rw [segments_append_sep back hd hsep (hs sep hsep), List.dropLast_append] at h
    split at h
    · exact ihf h
    · rcases List.mem_append.mp h with h | h
      · rw [(eq_trim_of_mem_segments ht h).1, depth_trim, hd]
      · exact ihb h

/-- The last part ends its text, if neither a blank nor a separator does. -/
theorem suffix_of_getLast?_segments {text part : List Char}
    (ht : ∀ c ∈ text.getLast?, isBlank c = false ∧ isSep c = false)
    (hp : part ∈ (segments isSep text).getLast?) : part <:+ text := by
  induction text using whole_induction hs with
  | whole text hw =>
    obtain ⟨rfl, _⟩ := eq_trim_of_mem_segments hw (List.mem_of_mem_getLast? hp)
    obtain ⟨lead, trail, _, hb, he⟩ := exists_trim text
    have hz : trail = [] := by
      by_contra hn
      have hl : trail.getLast hn ∈ text.getLast? := by
        rw [he, List.getLast?_append_of_ne_nil _ (List.append_ne_nil_of_right_ne_nil _ hn),
          List.getLast?_append_of_ne_nil _ hn]
        exact List.getLast_mem_getLast? hn
      exact Bool.false_ne_true ((ht _ hl).1.symm.trans (hb _ (List.getLast_mem hn)))
    rw [hz, List.append_nil] at he
    exact ⟨lead, he.symm⟩
  | cut front sep back _ hd hsep _ ihb =>
    have hn : back ≠ [] := by
      rintro rfl
      have hl : sep ∈ (front ++ [sep]).getLast? := by rw [List.getLast?_concat]; rfl
      exact Bool.false_ne_true ((ht sep hl).2.symm.trans hsep)
    have hb : ∀ c ∈ back.getLast?, isBlank c = false ∧ isSep c = false := by
      intro c hc
      refine ht c ?_
      rwa [List.getLast?_append_of_ne_nil _ (List.cons_ne_nil _ _),
        List.getLast?_cons_of_ne_nil hn]
    have hm := hb _ (List.getLast_mem_getLast? hn)
    have hne : segments isSep back ≠ [] := segments_ne_nil (List.getLast_mem hn) hm.1 hm.2
    rw [segments_append_sep back hd hsep (hs sep hsep), List.getLast?_append_of_ne_nil _ hne] at hp
    have hback : back <:+ front ++ sep :: back := ⟨front ++ [sep], by simp⟩
    exact (ihb hb hp).trans hback

theorem segments_of_mem_segments {text part : List Char} (h : part ∈ segments isSep text) :
    segments isSep part = [part] := by
  obtain ⟨hw, ht⟩ := whole_of_mem_segments hs h
  exact segments_of_whole hw ht

theorem splitsAtLevel_segments : SplitsAtLevel isSep (segments isSep) where
  split_eq text := by rw [segments, stretches_eq_slices hs, cuts_eq]
  split_append front sep back hd hsep :=
    segments_append_sep back (depth_eq_zero_iff.mpr hd) hsep (hs sep hsep)
  split_part text part hp := segments_of_mem_segments hs hp
  split_joined text sep gap hsep hg := by
    rw [segments_intercalate hsep (hs sep hsep) hg fun part hp =>
        depth_of_mem_dropLast_segments hs hp,
      List.flatMap_congr fun part hp => segments_of_mem_segments hs hp, List.flatMap_singleton']

end Parts

theorem whole_of_mem_elements {text part : List Char} (h : part ∈ elements text) :
    Whole isBlank part ∧ Trimmed part := whole_of_mem_segments (fun _ => weight_of_isBlank) h

/-- Commas part the layers of a pattern, and blanks the elements of a layer, where brackets are
level. -/
theorem splitsAtLevel_voices_and_elements :
    SplitsAtLevel (· == ',') voices ∧ SplitsAtLevel isBlank elements := by
  refine ⟨splitsAtLevel_segments fun c hc => ?_, splitsAtLevel_segments fun c => weight_of_isBlank⟩
  rw [eq_of_beq hc]
  decide

/-- No bracket pair is open at the first blank, and yet it is no cut. -/
example : elements "a] b [c d".toList = ["a] b [c".toList, "d".toList] := by decide

end StepSequencer
