import StepSequencer.Catalog
import StepSequencer.Density
import StepSequencer.Grid.Text

/-! Edits of a grid. An edit that does not fit the grid leaves it as it is. -/

namespace StepSequencer

/-- A random source: the draws that it makes, in order. -/
abbrev Draws := Nat → Float

inductive Edit where
  | toggleStep (row col : Int)
  | toggleMuted (row : Int)
  | setMuted (row : Int) (muted : Bool)
  | removeRow (row : Int)
  | addRow (sound : String)
  | resize (stepCount : Int)
  | clear
  | randomize (draws : Draws)
  | loadText (text : List Char)
  | loadPreset (name : String) (presets : List Preset)

/-- The next draw of a source. The state counts the draws that were made. -/
def draw (draws : Draws) : StateM Nat Float := modifyGet fun made => (draws made, made + 1)

/-- New steps for a sound: one draw for each step, and a hit where it is below the density. -/
def drawSteps (draws : Draws) (sound : String) (stepCount : Nat) : StateM Nat (List Bool) :=
  (List.range stepCount).mapM fun (step : Nat) => do
    let value ← draw draws
    return value < hitProbability sound step

namespace Grid

/-- Changes one layer, if there is a row with the index. -/
def changeRow (grid : Grid) (row : Int) (change : Layer → Layer) : Grid :=
  if row < 0 then grid else { grid with layers := grid.layers.modify row.toNat change }

def toggleStep (grid : Grid) (row col : Int) : Grid :=
  if col < 0 then grid
  else grid.changeRow row fun layer => { layer with steps := layer.steps.modify col.toNat (!·) }

def toggleMuted (grid : Grid) (row : Int) : Grid :=
  grid.changeRow row fun layer => { layer with muted := !layer.muted }

def setMuted (grid : Grid) (row : Int) (muted : Bool) : Grid :=
  grid.changeRow row fun layer => { layer with muted }

def removeRow (grid : Grid) (row : Int) : Grid :=
  if row < 0 then grid else { grid with layers := grid.layers.eraseIdx row.toNat }

def addRow (grid : Grid) (sound : String) : Grid :=
  { grid with layers := grid.layers ++ [{ sound, steps := silence grid.stepCount }] }

/-- Cuts each layer to a number of steps that makes up whole bars, or fills it up with rests. -/
def resize (grid : Grid) (stepCount : Int) : Grid :=
  if wholeBars stepCount then
    let length := stepCount.toNat
    { layers := grid.layers.map fun layer =>
        { layer with steps := (layer.steps ++ silence length).take length }
      stepCount := length }
  else grid

def clear (grid : Grid) : Grid :=
  { grid with layers := grid.layers.map fun layer =>
      { layer with steps := silence grid.stepCount } }

/-- Draws every layer anew, row by row, muted rows too. -/
def randomizeM (grid : Grid) (draws : Draws) : StateM Nat Grid := do
  let layers ← grid.layers.mapM fun layer => do
    let steps ← drawSteps draws layer.sound grid.stepCount
    return { layer with steps }
  return { grid with layers }

def randomize (grid : Grid) (draws : Draws) : Grid := (grid.randomizeM draws |>.run 0).1

def loadText (grid : Grid) (text : List Char) : Grid :=
  { grid with layers := layersOfText text grid.stepCount }

def loadPreset (grid : Grid) (name : String) (presets : List Preset) : Grid :=
  match findPreset? name presets with
  | some preset => grid.loadText preset.pattern.toList
  | none => grid

def apply (grid : Grid) : Edit → Grid
  | .toggleStep row col => grid.toggleStep row col
  | .toggleMuted row => grid.toggleMuted row
  | .setMuted row muted => grid.setMuted row muted
  | .removeRow row => grid.removeRow row
  | .addRow sound => grid.addRow sound
  | .resize stepCount => grid.resize stepCount
  | .clear => grid.clear
  | .randomize draws => grid.randomize draws
  | .loadText text => grid.loadText text
  | .loadPreset name presets => grid.loadPreset name presets

end Grid

def Edit.unknownPreset? : Edit → Option String
  | .loadPreset name presets => if (findPreset? name presets).isNone then some name else none
  | _ => none

end StepSequencer
