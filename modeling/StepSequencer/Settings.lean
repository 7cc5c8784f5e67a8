import StepSequencer.Catalog
import StepSequencer.Meter

/-! The settings of an editing session. -/

namespace StepSequencer

structure Settings where
  tempo : Float := defaultTempo
  /-- The seconds without an edit after which a pattern is announced; zero announces it at once.
  -/
  applyDelay : Float := 0.15
  /-- Frames of the playhead per second. -/
  frameRate : Float := 60.0
  presets : List Preset := builtinPresets
  sounds : List SoundOption := builtinSounds

inductive PaceError where
  | negativeDelay
  | frameRate
deriving DecidableEq

def PaceError.message : PaceError → String
  | .negativeDelay => "auto_apply_delay cannot be negative"
  | .frameRate => "frame_rate must be positive"

namespace Settings

/-- The settings, if their delay is not negative and their frame rate is positive. -/
def check (settings : Settings) : Except PaceError Settings :=
  if settings.applyDelay < 0.0 then .error .negativeDelay
  else if settings.frameRate ≤ 0.0 then .error .frameRate
  else .ok settings

def frameInterval (settings : Settings) : Float := 1.0 / settings.frameRate

end Settings

end StepSequencer
