/-! Dividing a span of steps into equal parts. -/

namespace StepSequencer

/-- The boundary before the part with an index, when a total is cut into equal parts: the quotient
`index * total / parts`, rounded to the nearest number, a half upwards. -/
def boundary (index total parts : Int) : Int :=
  (2 * index * total + parts).fdiv (2 * parts)

/-- The boundary, where there is a part to begin. -/
def boundary? (index total parts : Int) : Option Int :=
  if parts = 0 then none else some (boundary index total parts)

def partStart (width parts index : Nat) : Nat := (boundary index width parts).toNat

def partWidth (width parts index : Nat) : Nat :=
  partStart width parts (index + 1) - partStart width parts index

end StepSequencer
