/-! The catalogs of preset patterns and of sounds. -/

namespace StepSequencer

structure Preset where
  name : String
  pattern : String
deriving DecidableEq

/-- A sound that a new row can play, with the label it is shown under. -/
structure SoundOption where
  sound : String
  label : String
deriving DecidableEq

def builtinPresets : List Preset := [
  ⟨"Rock", "bd ~ bd ~, ~ ~ cp ~, hh*8"⟩,
  ⟨"Pop", "bd ~ ~ bd ~ ~ bd ~, ~ ~ ~ ~ cp ~ ~ ~, hh*8"⟩,
  ⟨"Hip Hop", "bd ~ [~ bd] ~, ~ cp ~ ~, hh*8"⟩,
  ⟨"4-on-Floor", "bd*4, ~ cp ~ cp, [hh hh hh oh]*4"⟩,
  ⟨"Boom Bap", "bd ~ ~ ~, ~ ~ cp ~, hh*4"⟩,
  ⟨"Trap", "bd ~ ~ [~ bd], ~ ~ cp ~, hh*16"⟩,
  ⟨"Breakbeat", "[bd ~] ~ [~ bd] ~, ~ cp ~ [~ cp], hh*4"⟩,
  ⟨"Minimal", "bd ~ ~ ~, ~ ~ cp ~, [~ hh]*4"⟩,
  ⟨"Reggaeton", "bd ~ ~ bd, ~ ~ cp ~, [~ hh]*8"⟩,
  ⟨"Shuffle", "bd [~ bd] bd ~, ~ [~ cp] ~ ~, [hh ~ hh]*4"⟩]

def builtinSounds : List SoundOption := [
  ⟨"bd", "Kick"⟩,
  ⟨"sd", "Snare"⟩,
  ⟨"cp", "Clap"⟩,
  ⟨"hh", "Hi-Hat"⟩,
  ⟨"oh", "Open Hat"⟩,
  ⟨"rim", "Rim"⟩,
  ⟨"lt", "Lo Tom"⟩,
  ⟨"mt", "Mid Tom"⟩,
  ⟨"ht", "Hi Tom"⟩,
  ⟨"cy", "Cymbal"⟩,
  ⟨"cb", "Cowbell"⟩,
  ⟨"cl", "Clave"⟩,
  ⟨"sh", "Shaker"⟩,
  ⟨"ma", "Maracas"⟩,
  ⟨"cr", "Crash"⟩,
  ⟨"rd", "Ride"⟩]

/-- The first preset of a catalog with a name. -/
def findPreset? (name : String) (presets : List Preset) : Option Preset :=
  presets.find? (·.name == name)

end StepSequencer
