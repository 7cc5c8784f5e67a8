import StepSequencer.Pattern.Span
import StepSequencer.Pattern.Token

/-! The steps of a pattern: its tree quantized onto a span of steps. -/

namespace StepSequencer

def silence (width : Nat) : List Bool := List.replicate width false

/-- A span with one hit, on its first step. -/
def onset : (width : Nat) → List Bool
  | 0 => []
  | width + 1 => true :: silence width

/-- Writes steps over a row from a step on. What would lie beyond the end of the row is dropped.
-/
def overwrite (row : List Bool) (start : Nat) (steps : List Bool) : List Bool :=
  row.take start ++ steps.take (row.length - start) ++ row.drop (start + steps.length)

/-- A row with a hit on the first step of each of several parts. -/
def pulses (width parts : Nat) : List Bool :=
  (List.range parts).foldl (fun row index => row.set (partStart width parts index) true)
    (silence width)

mutual

/-- The steps of a tree over a span. Of an alternation only the first choice is shown. A base that
is played at least once in each step sounds alike in each of them. -/
def Token.expand : Token → (width : Nat) → List Bool
  | .rest, width => silence width
  | .atomic _, width => onset width
  | .bracketed inner, width => inner.expand width
  | .alternation [], width => silence width
  | .alternation (first :: _), width => first.expand width
  | .repeated base count, width =>
    if count ≤ 0 ∨ width = 0 then silence width
    else if count ≥ width then (List.replicate width (base.expand 1)).flatten
    else match base with
    | .atomic _ => pulses width count.toNat
    | base =>
      (List.range count.toNat).foldl
        (fun row index =>
          overwrite row (partStart width count.toNat index)
            (base.expand (partWidth width count.toNat index)))
        (silence width)
  | .sequence elements, width => Token.expandParts elements width elements.length 0 (silence width)

/-- Writes the elements of a sequence over a row, each at its part of the span. An element whose
part has no step is left out. -/
def Token.expandParts : List Token → (width parts index : Nat) → List Bool → List Bool
  | [], _, _, _, row => row
  | element :: more, width, parts, index, row =>
    Token.expandParts more width parts (index + 1)
      (if partWidth width parts index = 0 then row
      else overwrite row (partStart width parts index)
        (element.expand (partWidth width parts index)))

end

/-- The steps of a tree over a number of steps that is taken as zero where it is negative. -/
def Token.steps (token : Token) (count : Int) : List Bool := token.expand count.toNat

def stepsOfText (text : List Char) (count : Int) : List Bool := (Token.read text).steps count

end StepSequencer
