import StepSequencer.Pattern.Expansion
import StepSequencer.Pattern.SoundName

/-! The layers of a grid, and the layers that a pattern writes. -/

namespace StepSequencer

/-- One voice: a sound and its steps. A muted layer keeps its steps. -/
structure Layer where
  sound : String
  steps : List Bool
  muted : Bool := false
deriving DecidableEq

def Layer.hits (layer : Layer) : List Nat :=
  layer.steps.zipIdx.filterMap fun (on, index) => if on then some index else none

def Layer.audible (layer : Layer) : Bool := !layer.muted && layer.steps.any id

def Layer.ofText (text : List Char) (stepCount : Int) : Layer where
  sound := soundName text
  steps := stepsOfText text stepCount

/-- One layer for each voice of a pattern. -/
def layersOfText (text : List Char) (stepCount : Int) : List Layer :=
  (voices text).map (Layer.ofText · stepCount)

end StepSequencer
