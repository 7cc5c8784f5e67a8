import StepSequencer.Number.Numeral
import StepSequencer.Pattern.Nesting

/-! The tree of a rhythm pattern, and the reading of a pattern text as a tree. -/

namespace StepSequencer

inductive Token where
  /-- Silence for the whole span. -/
  | rest
  /-- One hit at the start of its span. -/
  | atomic (text : String)
  /-- The base played several times across the span. -/
  | repeated (base : Token) (count : Int)
  /-- A group in square brackets, which fills the same span. -/
  | bracketed (inner : Token)
  /-- One choice for each cycle. -/
  | alternation (choices : List Token)
  /-- Elements that share the span between them. -/
  | sequence (elements : List Token)

/-- Induction over a tree, with the hypothesis for each choice of an alternation and each element
of a sequence. -/
@[elab_as_elim, induction_eliminator]
theorem Token.induction {motive : Token → Prop} (rest : motive .rest)
    (atomic : ∀ text, motive (.atomic text))
    (repeated : ∀ base count, motive base → motive (.repeated base count))
    (bracketed : ∀ inner, motive inner → motive (.bracketed inner))
    (alternation : ∀ choices, (∀ choice ∈ choices, motive choice) → motive (.alternation choices))
    (sequence : ∀ elements, (∀ element ∈ elements, motive element) → motive (.sequence elements))
    (token : Token) : motive token :=
  @Token.rec motive (fun tokens => ∀ token ∈ tokens, motive token)
    rest atomic repeated bracketed alternation sequence (by simp)
    (fun _ _ hf hm => List.forall_mem_cons.mpr ⟨hf, hm⟩) token

def dropLineEnd (text : List Char) : List Char :=
  if text.getLast? = some '\n' then text.dropLast else text

/-- A tilde or a run of dashes, with or without one line end after it. -/
def isRest (text : List Char) : Bool :=
  let mark := dropLineEnd text
  mark == ['~'] || (!mark.isEmpty && mark.all (· == '-'))

/-- Cuts off a count that ends the text: an asterisk and digits, with something before them. -/
def repeatSuffix? (text : List Char) : Option (List Char × List Char) :=
  let digits := (text.reverse.takeWhile isDigit).reverse
  match text.reverse.dropWhile isDigit with
  | '*' :: base => if digits.isEmpty || base.isEmpty then none else some (base.reverse, digits)
  | _ => none

theorem length_lt_of_repeatSuffix? {text base digits : List Char}
    (h : repeatSuffix? text = some (base, digits)) : base.length < text.length := by
  have hl := length_dropWhile_le isDigit text.reverse
  simp only [repeatSuffix?] at h
  split at h
  next base' hd =>
    split at h
    · simp at h
    · obtain ⟨rfl, rfl⟩ := Prod.mk.inj (Option.some.inj h)
      rw [hd] at hl
      simp only [List.length_cons, List.length_reverse] at hl ⊢
      omega
  next => simp at h

/-- The rule that a text falls under, with the texts that it leaves to be read. -/
inductive Form where
  | rest
  | repeated (base digits : List Char)
  | bracketed (inner : List Char)
  | alternation (choices : List (List Char))
  | sequence (elements : List (List Char))
  | word (text : List Char)

/-- A count at the end of a text binds everything before it. Text that fits no other form is a
single word. -/
def formOf (text : List Char) : Form :=
  let word := trim text
  if word.isEmpty || isRest word then .rest
  else match repeatSuffix? word with
  | some (base, digits) => .repeated base digits
  | none =>
    if enclosed '[' ']' word then .bracketed (inside word)
    else if enclosed '<' '>' word then .alternation (elements (inside word))
    else if 2 ≤ (elements word).length then .sequence (elements word)
    else .word word

def Form.parts : Form → List (List Char)
  | .rest | .word _ => []
  | .repeated base _ => [base]
  | .bracketed inner => [inner]
  | .alternation choices => choices
  | .sequence elements => elements

theorem length_lt_of_mem_parts {text part : List Char} (h : part ∈ (formOf text).parts) :
    part.length < text.length := by
  refine Nat.lt_of_lt_of_le ?_ (length_trim_le text)
  rw [formOf] at h
  split at h
  · cases h
  split at h
  next base digits hr =>
    obtain rfl := List.mem_singleton.mp h
    exact length_lt_of_repeatSuffix? hr
  split at h
  next hb =>
    obtain rfl := List.mem_singleton.mp h
    exact length_inside_lt hb
  split at h
  next ha => exact Nat.lt_of_le_of_lt (length_le_of_mem_segments h) (length_inside_lt ha)
  split at h
  next hs => exact length_lt_of_mem_segments h hs
  next => cases h

/-- The tree that a text writes, with counts of any length. -/
def Token.read (text : List Char) : Token :=
  match _hf : formOf text with
  | .rest => .rest
  | .repeated base digits => .repeated (Token.read base) (numberOfDigits digits)
  | .bracketed inner => .bracketed (Token.read inner)
  | .alternation choices => .alternation (choices.attach.map fun choice => Token.read choice.1)
  | .sequence elements => .sequence (elements.attach.map fun element => Token.read element.1)
  | .word word => .atomic (String.ofList word)
termination_by text.length
decreasing_by all_goals exact length_lt_of_mem_parts (by simp [_hf, Form.parts, Subtype.property])

theorem Token.read_eq (text : List Char) :
    Token.read text =
      match formOf text with
      | .rest => .rest
      | .repeated base digits => .repeated (Token.read base) (numberOfDigits digits)
      | .bracketed inner => .bracketed (Token.read inner)
      | .alternation choices => .alternation (choices.map Token.read)
      | .sequence elements => .sequence (elements.map Token.read)
      | .word word => .atomic (String.ofList word) := by
  rw [Token.read]
  split <;> simp_all

/-- The tree that a text writes, if all of its counts can be read. What a count binds is read before
the count. -/
def Token.tryRead (text : List Char) : Except NumeralError Token :=
  match _hf : formOf text with
  | .rest => return .rest
  | .repeated base digits => return .repeated (← Token.tryRead base) (← readNumeral digits)
  | .bracketed inner => return .bracketed (← Token.tryRead inner)
  | .alternation choices =>
    return .alternation (← choices.attach.mapM fun choice => Token.tryRead choice.1)
  | .sequence elements =>
    return .sequence (← elements.attach.mapM fun element => Token.tryRead element.1)
  | .word word => return .atomic (String.ofList word)
termination_by text.length
decreasing_by all_goals exact length_lt_of_mem_parts (by simp [_hf, Form.parts, Subtype.property])

theorem Token.tryRead_eq (text : List Char) :
    Token.tryRead text =
      match formOf text with
      | .rest => return .rest
      | .repeated base digits => return .repeated (← Token.tryRead base) (← readNumeral digits)
      | .bracketed inner => return .bracketed (← Token.tryRead inner)
      | .alternation choices => return .alternation (← choices.mapM Token.tryRead)
      | .sequence elements => return .sequence (← elements.mapM Token.tryRead)
      | .word word => return .atomic (String.ofList word) := by
  rw [Token.tryRead]
  simp only [List.mapM_subtype, List.unattach_attach]
  split <;> simp_all

end StepSequencer
