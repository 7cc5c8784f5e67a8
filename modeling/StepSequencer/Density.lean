/-! How likely a random pattern is to have a hit, for each kind of drum. -/

namespace StepSequencer

inductive Drum where
  | kick
  | snare
  | hat
  | openHat
  | other
deriving DecidableEq

/-- Lower case for the ASCII letters and the Kelvin sign, the only characters whose lower case is
a single ASCII letter. -/
def foldCase (c : Char) : Char := if c = '\u212A' then 'k' else c.toLower

/-- The kind of drum that a sound stands for, in whatever case it is written. -/
def Drum.ofSound (sound : String) : Drum :=
  let key := sound.map foldCase
  if key ∈ ["bd", "kick"] then .kick
  else if key ∈ ["cp", "sd", "snare", "clap"] then .snare
  else if key ∈ ["hh", "ch"] then .hat
  else if key = "oh" then .openHat
  else .other

/-- Kicks lean on every beat, snares on the second and fourth; hats are dense and open hats
sparse. -/
def Drum.density (drum : Drum) (step : Int) : Float :=
  match drum with
  | .kick => if step % 4 = 0 then 0.70 else 0.12
  | .snare => if step % 8 = 4 then 0.85 else 0.06
  | .hat => 0.50
  | .openHat => 0.10
  | .other => 0.18

def hitProbability (sound : String) (step : Int) : Float := (Drum.ofSound sound).density step

end StepSequencer
