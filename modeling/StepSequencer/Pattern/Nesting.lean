import StepSequencer.Text.Blank

/-! Bracket depth: cutting a text at the separators outside every bracket pair, and recognising a
text that one bracket pair encloses. -/

namespace StepSequencer

/-- What a character adds to the bracket depth. All kinds of brackets count alike. -/
def weight (c : Char) : Int :=
  if c = '[' ∨ c = '<' ∨ c = '{' then 1
  else if c = ']' ∨ c = '>' ∨ c = '}' then -1
  else 0

/-- The stretches between the separators at depth zero, in a text that begins at a given depth.
Unbalanced brackets may take the depth below zero and back. -/
def stretches (isSep : Char → Bool) : (depth : Int) → List Char → List (List Char)
  | _, [] => [[]]
  | depth, c :: rest =>
    let after := depth + weight c
    if after = 0 ∧ isSep c then [] :: stretches isSep after rest
    else (stretches isSep after rest).modifyHead (c :: ·)

def segments (isSep : Char → Bool) (text : List Char) : List (List Char) :=
  ((stretches isSep 0 text).map trim).filter (!·.isEmpty)

/-- The texts of the layers of a pattern: commas part them. -/
def voices (text : List Char) : List (List Char) := segments (· == ',') text

/-- The elements of a layer: blanks part them. -/
def elements (text : List Char) : List (List Char) := segments isBlank text

/-- From a given depth, the depth comes to zero at the last character and not before. -/
def closesAtEnd : (depth : Int) → List Char → Bool
  | _, [] => false
  | depth, c :: rest =>
    let after := depth + weight c
    if after = 0 then rest.isEmpty else closesAtEnd after rest

/-- The bracket that opens the text is the one closed by its last character. -/
def enclosed (opening closing : Char) (text : List Char) : Bool :=
  2 ≤ text.length && text.head? == some opening && text.getLast? == some closing &&
    closesAtEnd 0 text

def inside (text : List Char) : List Char := text.tail.dropLast

/-- The length of several texts written in a row, each with one separator after it. -/
def joinedLength : List (List Char) → Nat
  | [] => 0
  | first :: more => first.length + 1 + joinedLength more

theorem stretches_ne_nil (isSep : Char → Bool) (depth : Int) (text : List Char) :
    stretches isSep depth text ≠ [] := by
  induction text generalizing depth with
  | nil => simp [stretches]
  | cons c rest ih =>
    simp only [stretches]
    split
    · simp
    · have := ih (depth + weight c)
      cases h : stretches isSep (depth + weight c) rest with
      | nil => exact absurd h this
      | cons => simp

theorem joinedLength_stretches (isSep : Char → Bool) (depth : Int) (text : List Char) :
    joinedLength (stretches isSep depth text) = text.length + 1 := by
  induction text generalizing depth with
  | nil => simp [stretches, joinedLength]
  | cons c rest ih =>
    have hr := ih (depth + weight c)
    simp only [stretches]
    split
    · simp only [joinedLength, List.length_nil, List.length_cons] at hr ⊢
      omega
    · cases h : stretches isSep (depth + weight c) rest with
      | nil => exact absurd h (stretches_ne_nil _ _ _)
      | cons first more =>
        rw [h] at hr
        simp only [joinedLength, List.modifyHead_cons, List.length_cons] at hr ⊢
        omega

theorem joinedLength_trimmed_le (texts : List (List Char)) :
    joinedLength ((texts.map trim).filter (!·.isEmpty)) ≤ joinedLength texts := by
  induction texts with
  | nil => simp
  | cons first more ih =>
    have ht := length_trim_le first
    simp only [List.map_cons, List.filter_cons]
    split
    · simp only [joinedLength]
      omega
    · simp only [joinedLength]
      omega

theorem joinedLength_segments_le (isSep : Char → Bool) (text : List Char) :
    joinedLength (segments isSep text) ≤ text.length + 1 :=
  Nat.le_trans (joinedLength_trimmed_le _) (Nat.le_of_eq (joinedLength_stretches isSep 0 text))

theorem length_add_length_le_joinedLength {part : List Char} {texts : List (List Char)}
    (h : part ∈ texts) : part.length + texts.length ≤ joinedLength texts := by
  have hl : ∀ more : List (List Char), more.length ≤ joinedLength more := by
    intro more
    induction more with
    | nil => simp
    | cons first more ih =>
      simp only [joinedLength, List.length_cons] at ih ⊢
      omega
  induction texts with
  | nil => simp at h
  | cons first more ih =>
    have hm := hl more
    rcases List.mem_cons.mp h with rfl | h
    · simp only [joinedLength, List.length_cons] at hm ⊢
      omega
    · have hi := ih h
      simp only [joinedLength, List.length_cons] at hi ⊢
      omega

theorem length_le_of_mem_segments {isSep : Char → Bool} {part text : List Char}
    (h : part ∈ segments isSep text) : part.length ≤ text.length := by
  have hs := length_add_length_le_joinedLength h
  have ht := joinedLength_segments_le isSep text
  have hp := List.length_pos_of_mem h
  omega

/-- Where there are two parts or more, each is shorter than the text. -/
theorem length_lt_of_mem_segments {isSep : Char → Bool} {part text : List Char}
    (h : part ∈ segments isSep text) (hn : 2 ≤ (segments isSep text).length) :
    part.length < text.length := by
  have hs := length_add_length_le_joinedLength h
  have ht := joinedLength_segments_le isSep text
  omega

theorem length_inside_lt {opening closing : Char} {text : List Char}
    (h : enclosed opening closing text = true) : (inside text).length < text.length := by
  have hl : 2 ≤ text.length := by
    simp only [enclosed, Bool.and_eq_true, decide_eq_true_eq] at h
    exact h.1.1.1
  simp only [inside, List.length_dropLast, List.length_tail]
  omega

end StepSequencer
