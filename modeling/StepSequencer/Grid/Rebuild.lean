import StepSequencer.Grid.Edit
import StepSequencer.Pattern.Placing

/-! Edits as they read patterns, look up what they change and rebuild the grid. Here a count may be
too long to be read, a place may be missing, and a rebuilt grid may be refused. -/

namespace StepSequencer

/-- Why an edit cannot be made. -/
inductive EditError where
  | unread (error : NumeralError)
  | misplaced (error : PlaceError)
  | refused (error : GridError)
deriving DecidableEq

def EditError.message? : EditError → Option String
  | .unread error => some error.message
  | .misplaced _ => none
  | .refused error => some error.message

instance : MonadLift (Except NumeralError) (Except EditError) := ⟨Except.mapError .unread⟩

instance : MonadLift (Except PlaceError) (Except EditError) := ⟨Except.mapError .misplaced⟩

def tryLayersOfText (text : List Char) (stepCount : Int) : Except EditError (List Layer) :=
  (voices text).mapM fun voice => do
    let token ← Token.tryRead voice
    let steps ← token.tryExpand (max stepCount 0)
    return { sound := soundName voice, steps }

namespace Grid

def rebuild (layers : List Layer) (stepCount : Int) : Except EditError Grid :=
  (Grid.make layers stepCount).mapError .refused

def hasRow (grid : Grid) (row : Int) : Bool := 0 ≤ row && row < grid.layers.length

/-- Opens a pattern, with three empty rows if it has no layer. -/
def tryOfText (text : List Char) (bars : Int) : Except EditError Grid := do
  let stepCount := stepCountForBars bars
  let layers ← tryLayersOfText text stepCount
  match layers with
  | [] => rebuild (defaultSounds.map fun sound => { sound, steps := silence stepCount }) stepCount
  | layers => rebuild layers stepCount

def tryLoadText (grid : Grid) (text : List Char) : Except EditError Grid := do
  let layers ← tryLayersOfText text grid.stepCount
  rebuild layers grid.stepCount

/-- Changes one layer and rebuilds the grid, if there is a row with the index. -/
def tryChangeRow (grid : Grid) (row : Int) (change : Layer → Except EditError Layer) :
    Except EditError Grid :=
  if grid.hasRow row then do
    let layer ← itemAt grid.layers row
    let layers ← replaceAt grid.layers row (← change layer)
    rebuild layers grid.stepCount
  else .ok grid

def tryToggleStep (grid : Grid) (row col : Int) : Except EditError Grid :=
  if 0 ≤ col && col < grid.stepCount then
    grid.tryChangeRow row fun layer => do
      let on ← itemAt layer.steps col
      let steps ← replaceAt layer.steps col !on
      return { layer with steps }
  else .ok grid

/-- An edit that may fail on the way. -/
def tryApply (grid : Grid) : Edit → Except EditError Grid
  | .toggleStep row col => grid.tryToggleStep row col
  | .toggleMuted row => grid.tryChangeRow row fun layer => .ok { layer with muted := !layer.muted }
  | .setMuted row muted => grid.tryChangeRow row fun layer => .ok { layer with muted }
  | .removeRow row =>
    if grid.hasRow row then
      rebuild (grid.layers.take row.toNat ++ grid.layers.drop (row.toNat + 1)) grid.stepCount
    else .ok grid
  | .resize stepCount =>
    if wholeBars stepCount then rebuild (grid.resize stepCount).layers stepCount else .ok grid
  | .loadPreset name presets =>
    match findPreset? name presets with
    | some preset => grid.tryLoadText preset.pattern.toList
    | none => .ok grid
  | .addRow sound => rebuild (grid.addRow sound).layers grid.stepCount
  | .clear => rebuild grid.clear.layers grid.stepCount
  | .randomize draws => rebuild (grid.randomize draws).layers grid.stepCount
  | .loadText text => grid.tryLoadText text

/-- Edits in order, up to the first that fails. -/
def tryRun (grid : Grid) (edits : List Edit) : Except EditError Grid := edits.foldlM tryApply grid

end Grid

end StepSequencer
