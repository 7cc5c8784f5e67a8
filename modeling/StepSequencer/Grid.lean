import StepSequencer.Layer
import StepSequencer.Meter
import StepSequencer.Text.Quoted

/-! Grids: layers over a shared number of steps. -/

namespace StepSequencer

structure Grid where
  layers : List Layer := []
  stepCount : Nat := stepsPerBar
deriving DecidableEq

/-- A number of steps that makes up whole bars, one at least. -/
def wholeBars (stepCount : Int) : Bool := 0 < stepCount && stepCount % stepsPerBar == 0

/-- The grid has whole bars, and each layer has as many steps as the grid. -/
structure Grid.Valid (grid : Grid) : Prop where
  wholeBars : wholeBars grid.stepCount = true
  length_steps : ∀ layer ∈ grid.layers, layer.steps.length = grid.stepCount

inductive GridError where
  /-- The number of steps does not make up whole bars. -/
  | brokenBar (stepCount : Int)
  /-- A layer is longer or shorter than the grid. -/
  | unevenLayer (sound : String) (length expected : Nat)
deriving DecidableEq

def GridError.message : GridError → String
  | .brokenBar stepCount =>
    messageWith ("step_count must be a positive multiple of " ++ toString stepsPerBar ++ ", got ")
      stepCount
  | .unevenLayer sound length expected =>
    messageWith ("Layer " ++ quoted sound ++ " has " ++ toString length ++ " steps, expected ")
      expected

/-- A grid of layers, if it is valid. The number of steps is looked at before the layers. -/
def Grid.make (layers : List Layer) (stepCount : Int) : Except GridError Grid :=
  if !wholeBars stepCount then .error (.brokenBar stepCount)
  else match layers.find? (·.steps.length != stepCount.toNat) with
  | some layer => .error (.unevenLayer layer.sound layer.steps.length stepCount.toNat)
  | none => .ok { layers, stepCount := stepCount.toNat }

namespace Grid

def bars (grid : Grid) : Nat := grid.stepCount / stepsPerBar

def stepsPerBeat (grid : Grid) : Nat := grid.stepCount / beatsPerBar

/-- The number of hits in the layers that are not muted. -/
def hitCount (grid : Grid) : Nat :=
  ((grid.layers.filter (!·.muted)).flatMap Layer.hits).length

end Grid

/-- The sounds of the empty rows that a pattern without layers is opened with. -/
def defaultSounds : List String := ["bd", "cp", "hh"]

/-- The number of steps for a pattern of several bars: two bars at most are shown. -/
def stepCountForBars (bars : Int) : Nat :=
  if bars > 1 then (min (bars * stepsPerBar) maxStepCount).toNat else stepsPerBar

/-- The grid of a pattern, with three empty rows if the pattern has no layer. -/
def Grid.ofText (text : List Char) (bars : Int) : Grid :=
  let stepCount := stepCountForBars bars
  let layers := match layersOfText text stepCount with
    | [] => defaultSounds.map fun sound => { sound, steps := silence stepCount }
    | layers => layers
  { layers, stepCount }

end StepSequencer
