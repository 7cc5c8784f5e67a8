import StepSequencer.Text.Digit

/-! Decimal numerals, which are neither read nor written beyond a number of digits. -/

namespace StepSequencer

/-- The most digits that a numeral may have. -/
def maxDigits : Nat := 4300

inductive NumeralError where
  /-- A numeral has too many digits to be read. -/
  | unreadable (digits : Nat)
  /-- A number has too many digits to be written. -/
  | unwritable
deriving DecidableEq

def NumeralError.message (error : NumeralError) : String :=
  let found := match error with
    | .unreadable digits => ": value has " ++ toString digits ++ " digits"
    | .unwritable => ""
  "Exceeds the limit (" ++ toString maxDigits ++ " digits) for integer string conversion" ++
    found ++ "; use sys.set_int_max_str_digits() to increase the limit"

def readNumeral (digits : List Char) : Except NumeralError Nat :=
  if maxDigits < digits.length then .error (.unreadable digits.length)
  else .ok (numberOfDigits digits)

def writeNumeral (number : Int) : Except NumeralError String :=
  if maxDigits < (Nat.toDigits 10 number.natAbs).length then .error .unwritable
  else .ok (toString number)

/-- A message that ends in a number, or the complaint that the number cannot be written. -/
def messageWith (start : String) (number : Int) : String :=
  match writeNumeral number with
  | .ok written => start ++ written
  | .error error => error.message

end StepSequencer
