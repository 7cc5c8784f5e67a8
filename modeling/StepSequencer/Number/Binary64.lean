/-! Double precision numbers as integers times powers of two, and their exact floor and remainder.
-/

namespace StepSequencer

/-- No number, an infinity, or `mantissa * 2 ^ exponent` with a sign. In what a double stands for
the mantissa is below `2 ^ 53` and the exponent at least -1074. -/
inductive Binary64 where
  | nan
  | infinite (negative : Bool)
  | finite (negative : Bool) (mantissa : Nat) (exponent : Int)
deriving DecidableEq

namespace Binary64

/-- The leading bit of a mantissa of full length, `2 ^ 52`. -/
def leadingBit : Nat := 1 <<< 52

def ofFloat (x : Float) : Binary64 :=
  let bits : Nat := x.toBits.toNat
  let negative := bits >>> 63 == 1
  let field : Nat := (bits >>> 52) % 2048
  let fraction : Nat := bits % leadingBit
  if field = 2047 then if fraction = 0 then .infinite negative else .nan
  else if field = 0 then .finite negative fraction (-1074)
  else .finite negative (leadingBit + fraction) (field - 1075)

def toFloat (x : Binary64) : Float :=
  let signed (negative : Bool) (bits : Nat) : Float :=
    Float.ofBits (UInt64.ofNat (if negative then 1 <<< 63 + bits else bits))
  match x with
  | .nan => signed false (2047 <<< 52 + 1 <<< 51)
  | .infinite negative => signed negative (2047 <<< 52)
  | .finite negative 0 _ => signed negative 0
  | .finite negative mantissa exponent =>
    let shift := min (52 - mantissa.log2) (exponent + 1074).toNat
    signed negative ((exponent - shift + 1074).toNat <<< 52 + mantissa <<< shift)

def withSign (negative : Bool) (size : Nat) : Int := if negative then -size else size

def floor? : Binary64 → Option Int
  | .finite negative mantissa exponent =>
    if 0 ≤ exponent then some (withSign negative (mantissa <<< exponent.toNat))
    else some (withSign negative mantissa >>> (-exponent).toNat)
  | _ => none

/-- What is left of the first number after taking away the second as often as it goes into it,
with the sign of the first. -/
def remainder : Binary64 → Binary64 → Binary64
  | .finite negative mantissa exponent, .finite _ divisor scale =>
    let common := min exponent scale
    let whole := mantissa <<< (exponent - common).toNat
    let part := divisor <<< (scale - common).toNat
    if part = 0 then .nan else .finite negative (whole % part) common
  | x@(.finite ..), .infinite _ => x
  | _, _ => .nan

def ofInt (n : Int) : Binary64 := .finite (decide (n < 0)) n.natAbs 0

/-- The order of two numbers by size. Only no number has no place in it. -/
def compare? : Binary64 → Binary64 → Option Ordering
  | .nan, _ | _, .nan => none
  | .infinite first, .infinite second => some (compare second first)
  | .infinite negative, .finite .. => some (if negative then .lt else .gt)
  | .finite .., .infinite negative => some (if negative then .gt else .lt)
  | .finite minus m q, .finite minus' m' q' =>
    let common := min q q'
    some (compare (withSign minus (m <<< (q - common).toNat))
      (withSign minus' (m' <<< (q' - common).toNat)))

end Binary64

def floatMod (x divisor : Float) : Float :=
  let rest := ((Binary64.ofFloat x).remainder (Binary64.ofFloat divisor)).toFloat
  if rest == 0.0 then if divisor < 0.0 then -0.0 else 0.0
  else if decide (divisor < 0.0) != decide (rest < 0.0) then rest + divisor
  else rest

/-- The double nearest to an integer, unless the integer is too large for a finite one. -/
def floatOfInt? (n : Int) : Option Float :=
  let x := Float.ofInt n
  if x.isFinite then some x else none

end StepSequencer
