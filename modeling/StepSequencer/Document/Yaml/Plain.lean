import StepSequencer.Document
import StepSequencer.Document.Yaml.Cell
import StepSequencer.Number.Reading

/-! The values of plain YAML scalars: null, truth values, integers, floating point numbers and
text. -/

namespace StepSequencer.Yaml

def nullWords : List String := ["", "~", "null", "Null", "NULL"]

def trueWords : List String :=
  ["yes", "Yes", "YES", "true", "True", "TRUE", "on", "On", "ON"]

def falseWords : List String :=
  ["no", "No", "NO", "false", "False", "FALSE", "off", "Off", "OFF"]

/-- Underscores may stand anywhere among the digits of a number after the first. -/
def withoutUnderscores (text : List Char) : List Char := text.filter (· ≠ '_')

def numberInBase (base : Nat) (digits : List Char) : Nat :=
  digits.foldl (fun n c =>
    base * n + (if c.isDigit then c.toNat - '0'.toNat else c.toLower.toNat - 'a'.toNat + 10)) 0

def isDigitRun (text : List Char) : Bool :=
  text.head?.any Char.isDigit && text.all fun c => c.isDigit || c = '_'

/-- Minutes or seconds: one digit, or two of which the first is at most five. -/
def isSixtieth (text : List Char) : Bool :=
  match text with
  | [one] => one.isDigit
  | [ten, one] => '0' ≤ ten && ten ≤ '5' && one.isDigit
  | _ => false

/-- The digits after the mark of a base, of which there must be one at least. -/
def based (base : Nat) (digits : List Char) : Except Malformed Nat :=
  match withoutUnderscores digits with
  | [] => .error (.noDigits base)
  | digits => .ok (numberInBase base digits)

/-- The integer that a text without a sign writes: binary, octal, decimal or hexadecimal, or in
units of sixty with colons between them. -/
def natural? (text : List Char) : Except Malformed (Option Nat) :=
  let among (digits : String) (text : List Char) : Bool :=
    !text.isEmpty && text.all fun c => c = '_' || digits.toList.contains c
  match text with
  | ['0'] => .ok (some 0)
  | '0' :: 'b' :: digits =>
    if among "01" digits then (based 2 digits).map some else .ok none
  | '0' :: 'x' :: digits =>
    if among "0123456789abcdefABCDEF" digits then (based 16 digits).map some else .ok none
  | '0' :: digits =>
    if among "01234567" digits then .ok (some (numberInBase 8 (withoutUnderscores digits)))
    else .ok none
  | _ =>
    match text.splitOn ':' with
    | [] => .ok none
    | first :: more =>
      if isDigitRun first && more.all isSixtieth then do
        let parts ← ((first :: more).mapM fun part =>
          readNumeral (withoutUnderscores part)).mapError .numeral
        return some (parts.foldl (fun n part => 60 * n + part) 0)
      else .ok none

/-- The exponent of a floating point number has a sign, or there is none. -/
def isExponent (text : List Char) : Bool :=
  match text with
  | [] => true
  | mark :: sign :: digits =>
    (mark = 'e' || mark = 'E') && (sign = '+' || sign = '-') && !digits.isEmpty &&
      digits.all Char.isDigit
  | _ => false

/-- A number with a point: digits before it, unless it begins the number, and digits and an
exponent after it. -/
def isPointed (text : List Char) (signed : Bool) : Bool :=
  let isDigitOr (c : Char) : Bool := c.isDigit || c = '_'
  match text.dropWhile isDigitOr with
  | '.' :: rest =>
    let whole := text.takeWhile isDigitOr
    if whole.isEmpty then !signed && rest.head?.any Char.isDigit &&
      isExponent (rest.dropWhile isDigitOr)
    else isDigitRun whole && isExponent (rest.dropWhile isDigitOr)
  | _ => false

/-- Adds up parts from the least: each is a number of units sixty times as great as those before.
-/
def sumOfSixtieths (sum : Float) (unit : Nat) : List Float → Except Malformed Float
  | [] => .ok sum
  | value :: more =>
    match floatOfInt? unit with
    | some size => sumOfSixtieths (sum + value * size) (60 * unit) more
    | none => .error .unitTooLarge

/-- The number in units of sixty that parts write, the last of which has a point. -/
def sixtieths (parts : List (List Char)) : Except Malformed (Option Float) :=
  match parts.mapM decimal? with
  | some values => (sumOfSixtieths 0.0 1 (values.reverse.map Decimal.toFloat)).map some
  | none => .ok none

def unsignedFloat? (text : List Char) (signed : Bool) : Except Malformed (Option Float) :=
  if text ∈ [".inf".toList, ".Inf".toList, ".INF".toList] then .ok (some (1.0 / 0.0))
  else if !signed ∧ text ∈ [".nan".toList, ".NaN".toList, ".NAN".toList] then
    .ok (some (0.0 / 0.0))
  else if isPointed text signed then
    .ok ((decimal? (withoutUnderscores text)).map Decimal.toFloat)
  else
    match text.splitOn ':' with
    | first :: second :: more =>
      let last := (second :: more).getLast?.getD []
      let fraction := last.dropWhile (· ≠ '.')
      let middle := (second :: more).dropLast ++ [last.takeWhile (· ≠ '.')]
      if isDigitRun first && middle.all isSixtieth && !fraction.isEmpty &&
          fraction.tail.all (fun c => c.isDigit || c = '_') then
        sixtieths ((first :: second :: more).map withoutUnderscores)
      else .ok none
    | _ => .ok none

def plainValue (content : List Char) : Except Malformed Scalar := do
  let word := String.ofList content
  let (negative, size) := cutSign content
  let signed := size.length < content.length
  if nullWords.contains word then return .null
  else if trueWords.contains word then return .bool true
  else if falseWords.contains word then return .bool false
  else if word = "=" ∨ word = "<<" then throw .syntaxError
  else
    match ← natural? size with
    | some n => return .int (if negative then -(n : Int) else n)
    | none =>
      match ← unsignedFloat? size signed with
      | some x => return .float (if negative then -x else x)
      | none => return .text word

end StepSequencer.Yaml
