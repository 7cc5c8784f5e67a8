import StepSequencer.Number.Shortest
import StepSequencer.Text.Blank
import StepSequencer.Text.Digit

/-! Reading a text as a floating point number. -/

namespace StepSequencer

def Decimal.toFloat (d : Decimal) : Float :=
  Float.ofScientific d.digits (decide (d.exponent < 0)) d.exponent.natAbs

def cutSign : List Char → Bool × List Char
  | '-' :: rest => (true, rest)
  | '+' :: rest => (false, rest)
  | text => (false, text)

/-- The exponent after the digits of a number: none at all, or a mark, a sign and digits. -/
def exponent? : List Char → Option Int
  | [] => some 0
  | mark :: rest =>
    let (negative, digits) := cutSign rest
    if mark.toLower = 'e' ∧ !digits.isEmpty ∧ digits.all Char.isDigit then
      let size : Int := numberOfDigits digits
      some (if negative then -size else size)
    else none

/-- A decimal without a sign: digits around a point, at least one of them, and an exponent. -/
def decimal? (text : List Char) : Option Decimal :=
  let whole := text.takeWhile Char.isDigit
  let rest := text.dropWhile Char.isDigit
  let (fraction, rest) := match rest with
    | '.' :: more => (more.takeWhile Char.isDigit, more.dropWhile Char.isDigit)
    | _ => ([], rest)
  if whole.isEmpty && fraction.isEmpty then none
  else (exponent? rest).map fun exponent =>
    ⟨numberOfDigits (whole ++ fraction), exponent - fraction.length⟩

/-- Leaves out the underscores, each of which must stand between two digits. -/
def withoutUnderscores? : (previous : Char) → List Char → Option (List Char)
  | previous, [] => if previous = '_' then none else some []
  | previous, '_' :: rest => if previous.isDigit then withoutUnderscores? '_' rest else none
  | previous, c :: rest =>
    if previous = '_' ∧ !c.isDigit then none
    else (withoutUnderscores? c rest).map (c :: ·)

/-- The ASCII form of the digits and blanks of other scripts. -/
def toAscii (c : Char) : Char :=
  if c.toNat < 0x80 then c
  else if isBlank c then ' '
  else match digitValue? c with
  | some digit => Char.ofNat ('0'.toNat + digit)
  | none => c

/-- The blanks that may stand around a number: ASCII blanks that are no separators. -/
def isNumberMargin (c : Char) : Bool := c ∈ [' ', '\t', '\n', '\x0B', '\x0C', '\r']

/-- The double that a text writes: a decimal, an infinity or no number, in any case, with blanks
around it, digits of any script and underscores between digits. -/
def readFloat? (text : List Char) : Option Float := do
  let plain ← withoutUnderscores? ' ' (trimBy isNumberMargin (text.map toAscii))
  let (negative, size) := cutSign plain
  let word := size.map Char.toLower
  let value ←
    if word = "nan".toList then some (0.0 / 0.0)
    else if word = "inf".toList ∨ word = "infinity".toList then some (1.0 / 0.0)
    else (decimal? size).map Decimal.toFloat
  return if negative then -value else value

end StepSequencer
