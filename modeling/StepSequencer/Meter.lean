/-! The measures of the grid and of the clock that plays it. -/

namespace StepSequencer

def beatsPerBar : Nat := 4

/-- A bar of four beats is written in sixteenth notes. -/
def stepsPerBar : Nat := 16

/-- The engine counts time in cycles of one bar, whatever the length of the grid. -/
def stepsPerCycle : Nat := 16

/-- The longest grid that a pattern is opened on. -/
def maxStepCount : Nat := 32

/-- Beats per minute. -/
def defaultTempo : Float := 120.0

/-- The speed of the clock under a tempo that is not positive. -/
def fallbackCyclesPerSecond : Float := 0.5

end StepSequencer
