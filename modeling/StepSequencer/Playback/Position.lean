import StepSequencer.Meter
import StepSequencer.Number.Binary64

/-! Where in the grid a clock stands: the position as a fractional step, and the column it falls
in. -/

namespace StepSequencer

/-- Why a position or its column cannot be told. -/
inductive Fault where
  | divisionByZero
  /-- A number of steps beyond the doubles, or an infinite position. -/
  | tooLarge
  | notANumber
  /-- The engine did not say where it is. -/
  | engine (message : String)
deriving DecidableEq

def Fault.message? : Fault → Option String
  | .notANumber => some "cannot convert float NaN to integer"
  | .engine message => some message
  | .divisionByZero | .tooLarge => none

def wrapped (steps : Float) (stepCount : Int) : Except Fault Float :=
  match floatOfInt? stepCount with
  | none => .error .tooLarge
  | some length => if length == 0.0 then .error .divisionByZero else .ok (floatMod steps length)

/-- The position under a clock that has run through a number of cycles. -/
def cyclePosition (cycles : Float) (stepCount : Int) : Except Fault Float :=
  wrapped (cycles * Float.ofNat stepsPerCycle) stepCount

/-- The speed of the clock that runs without an engine. A cycle is one bar. -/
def cyclesPerSecond (tempo : Float) : Float :=
  if 0.0 < tempo then tempo / 60.0 / Float.ofNat beatsPerBar else fallbackCyclesPerSecond

def tempoPosition (seconds tempo : Float) (stepCount : Int) : Except Fault Float :=
  let stepsPerSecond := cyclesPerSecond tempo * Float.ofNat stepsPerCycle
  if stepsPerSecond == 0.0 then .error .divisionByZero
  else
    let millisecondsPerStep := 1000.0 / stepsPerSecond
    if millisecondsPerStep == 0.0 then .error .divisionByZero
    else wrapped (seconds * 1000.0 / millisecondsPerStep) stepCount

def columnAt (position : Float) (stepCount : Int) : Except Fault Int :=
  match Binary64.ofFloat position with
  | .nan => .error .notANumber
  | .infinite _ => .error .tooLarge
  | finite =>
    match finite.floor? with
    | some step => if stepCount = 0 then .error .divisionByZero else .ok (step.fmod stepCount)
    | none => .error .notANumber

end StepSequencer
