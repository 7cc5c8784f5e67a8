import StepSequencer.Number.Numeral

/-! The characters of a YAML text with their places in it. -/

namespace StepSequencer.Yaml

inductive Malformed where
  | syntaxError
  /-- A number has too many digits. -/
  | numeral (error : NumeralError)
  /-- A number with a base and no digit. -/
  | noDigits (base : Nat)
  /-- A number in units of sixty, the greatest of them beyond the doubles. -/
  | unitTooLarge
  /-- An escape of a code point that does not exist. -/
  | codePoint (code : Nat)
deriving DecidableEq

def Malformed.message? : Malformed → Option String
  | .syntaxError | .unitTooLarge => none
  | .numeral error => some error.message
  | .noDigits base => some ("invalid literal for int() with base " ++ toString base ++ ": ''")
  | .codePoint code =>
    if code < 0x80000000 then some "chr() arg not in range(0x110000)" else none

/-- A character, its number in the text, its line and its column. -/
structure Cell where
  char : Char
  index : Nat
  line : Nat
  column : Nat

/-- The character of the cell after the last one. -/
def endMark : Char := '\x00'

def isBreak (c : Char) : Bool := c = '\n'

def isGap (c : Char) : Bool := c = ' ' || c = '\t' || c = endMark || isBreak c

def unifyLineEnds : List Char → List Char
  | '\r' :: '\n' :: rest => '\n' :: unifyLineEnds rest
  | '\r' :: rest => '\n' :: unifyLineEnds rest
  | c :: rest => c :: unifyLineEnds rest
  | [] => []

def isAllowed (c : Char) : Bool :=
  let n := c.toNat
  c = '\t' || c = '\n' || (0x20 ≤ n && n ≤ 0x7E) || n = 0x85 || (0xA0 ≤ n && n ≤ 0xFFFD) ||
    0x10000 ≤ n

/-- The cells of a text from a place on, with the cell of the end mark after them. -/
def cellsFrom (index line column : Nat) : List Char → List Cell
  | [] => [⟨endMark, index, line, column⟩]
  | c :: rest =>
    ⟨c, index, line, column⟩ ::
      if isBreak c then cellsFrom (index + 1) (line + 1) 0 rest
      else cellsFrom (index + 1) line (column + 1) rest

/-- The cells of a text. Nothing can be read of a text with a character that is not allowed. -/
def cells (text : List Char) : List Cell :=
  let lines := unifyLineEnds text
  if lines.all isAllowed then cellsFrom 0 0 0 lines else []

def next : List Cell → Char
  | [] => endMark
  | cell :: _ => cell.char

def columnOf : List Cell → Nat
  | [] => 0
  | cell :: _ => cell.column

/-- A line that begins with three dashes or three points and then a gap. -/
def isBoundary (cells : List Cell) : Bool :=
  match cells with
  | first :: second :: third :: rest =>
    (first.char = '-' || first.char = '.') && second.char = first.char &&
      third.char = first.char && isGap (next rest)
  | _ => false

end StepSequencer.Yaml
