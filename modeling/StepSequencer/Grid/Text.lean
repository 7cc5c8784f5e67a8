import StepSequencer.Grid

/-! The pattern text of a grid: each audible layer in the shortest of three spellings. -/

namespace StepSequencer

/-- The text of a grid that nothing is heard of. -/
def restText : List Char := "~ ~ ~ ~".toList

/-- Texts in a row, with a separator between each two. -/
def joined (separator : List Char) (texts : List (List Char)) : List Char :=
  separator.intercalate texts

/-- A place in a list of a given length: counted from the end if negative, and kept inside. -/
def place (length : Nat) (index : Int) : Nat :=
  if index < 0 then (index + length).toNat else min index.toNat length

/-- The items from one place to before another. -/
def between {α : Type} (items : List α) (start stop : Int) : List α :=
  (items.take (place items.length stop)).drop (place items.length start)

/-- The hits are just those of the sound played as often as there are hits. -/
def evenlySpaced (hits : List Nat) (stepCount : Int) : Bool :=
  hits.map Int.ofNat ==
    (List.range hits.length).map fun (index : Nat) => boundary index stepCount hits.length

/-- The text of one beat: a rest, the sound alone, or a group with each step written out. -/
def beatText (sound : List Char) (beat : List Bool) : List Char :=
  if !beat.any id then ['~']
  else if beat.head? == some true && !beat.tail.any id then sound
  else '[' :: joined [' '] (beat.map fun on => if on then sound else ['~']) ++ [']']

/-- The text of a layer with a hit, in a grid of a number of steps. -/
def Layer.text (layer : Layer) (stepCount : Int) : List Char :=
  let sound := layer.sound.toList
  let hits := layer.hits
  if 2 ≤ hits.length && evenlySpaced hits stepCount then
    sound ++ '*' :: (toString hits.length).toList
  else if hits == [0] then joined [' '] (sound :: List.replicate (beatsPerBar - 1) ['~'])
  else
    let beatWidth := stepCount.fdiv beatsPerBar
    joined [' '] ((List.range beatsPerBar).map fun (beat : Nat) =>
      beatText sound (between layer.steps (beat * beatWidth) ((beat + 1) * beatWidth)))

/-- The text of a grid: its audible layers with commas between them. -/
def Grid.text (grid : Grid) : List Char :=
  match grid.layers.filter Layer.audible with
  | [] => restText
  | layers => joined [',', ' '] (layers.map (·.text grid.stepCount))

end StepSequencer
