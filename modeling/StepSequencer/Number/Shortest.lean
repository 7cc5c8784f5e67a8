import StepSequencer.Number.Binary64

/-! The shortest decimal that reads back as a given double. -/

namespace StepSequencer

/-- `digits * 10 ^ exponent`. -/
structure Decimal where
  digits : Nat
  exponent : Int
deriving DecidableEq

namespace Decimal

def compareScaled (d : Decimal) (n : Nat) (q : Int) : Ordering :=
  compare ((d.digits * Nat.pow 10 d.exponent.toNat) <<< (-q).toNat)
    ((n * Nat.pow 10 (-d.exponent).toNat) <<< q.toNat)

/-- The decimal lies among the numbers that round to `m * 2 ^ q`. They reach half way to the
double below and above, with the ends for an even mantissa. Below a power of two the doubles stand
closer. -/
def readsBack (m : Nat) (q : Int) (d : Decimal) : Bool :=
  let below := if m = Binary64.leadingBit ∧ -1074 < q then 4 * m - 1 else 4 * m - 2
  let above := 4 * m + 2
  let low := d.compareScaled below (q - 2)
  let high := d.compareScaled above (q - 2)
  if m % 2 = 0 then low != .lt && high != .gt else low == .gt && high == .lt

/-- The least power of ten above `m * 2 ^ q`, one of the three that the binary logarithm leaves.
-/
def scale (m : Nat) (q : Int) : Int :=
  let estimate := ((m.log2 + q) * 30103).fdiv 100000
  let exceeds (k : Int) : Bool := compareScaled ⟨1, k⟩ m q == .gt
  if exceeds estimate then estimate
  else if exceeds (estimate + 1) then estimate + 1
  else estimate + 2

/-- Of the two multiples of `10 ^ k` around `m * 2 ^ q`, the one that reads back; if both do, the
nearer, and halfway between them the even one. -/
def onGrid? (m : Nat) (q k : Int) : Option Decimal :=
  let floor := (m * Nat.pow 10 (-k).toNat) <<< q.toNat / Nat.pow 10 k.toNat <<< (-q).toNat
  let low : Decimal := ⟨floor, k⟩
  let high : Decimal := ⟨floor + 1, k⟩
  match low.readsBack m q, high.readsBack m q with
  | false, false => none
  | true, false => some low
  | false, true => some high
  | true, true =>
    match compareScaled ⟨2 * floor + 1, k⟩ m (q + 1) with
    | .gt => some low
    | .lt => some high
    | .eq => some (if floor % 2 = 0 then low else high)

def stripped : (fuel : Nat) → Decimal → Decimal
  | 0, d => d
  | fuel + 1, d =>
    if d.digits % 10 = 0 then stripped fuel ⟨d.digits / 10, d.exponent + 1⟩ else d

/-- The shortest decimal that reads back as `m * 2 ^ q`, for a positive mantissa: the first that
is found on a grid of one digit, two digits and so on. -/
def shortest (m : Nat) (q : Int) : Decimal :=
  let top := scale m q
  let found := (List.range 17).findSome? fun (more : Nat) => onGrid? m q (top - 1 - more)
  stripped 17 (found.getD ⟨(m * Nat.pow 5 (-q).toNat) <<< q.toNat, min q 0⟩)

end Decimal

/-- The digits in positional or exponential form. Positional form is kept for numbers from a ten
thousandth to below ten to the sixteenth, with a digit on either side of the point. -/
def Decimal.text (d : Decimal) : List Char :=
  let digits := Nat.toDigits 10 d.digits
  let leading := d.exponent + digits.length - 1
  if -4 ≤ leading ∧ leading < 16 then
    if leading < 0 then "0.".toList ++ List.replicate (-leading - 1).toNat '0' ++ digits
    else
      let whole := leading.toNat + 1
      let fraction := digits.drop whole
      digits.take whole ++ List.replicate (whole - digits.length) '0' ++
        '.' :: (if fraction.isEmpty then ['0'] else fraction)
  else
    let fraction := digits.drop 1
    let power := Nat.toDigits 10 leading.natAbs
    digits.take 1 ++ (if fraction.isEmpty then [] else '.' :: fraction) ++
      'e' :: (if leading < 0 then '-' else '+') :: List.replicate (2 - power.length) '0' ++ power

/-- The text of a double: its shortest decimal. -/
def floatText (x : Float) : String :=
  let signed (negative : Bool) (text : List Char) : String :=
    String.ofList (if negative then '-' :: text else text)
  match Binary64.ofFloat x with
  | .nan => "nan"
  | .infinite negative => signed negative "inf".toList
  | .finite negative 0 _ => signed negative "0.0".toList
  | .finite negative mantissa exponent => signed negative (Decimal.shortest mantissa exponent).text

end StepSequencer
