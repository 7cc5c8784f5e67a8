import StepSequencer.Text.Quoted

/-! What the log reports of a session: warnings and errors. Lines below a warning are left out. -/

namespace StepSequencer

inductive Severity where
  | warning
  | error
deriving DecidableEq

inductive Notice where
  /-- A preset was asked for that is in no catalog. -/
  | unknownPreset (name : String)
  /-- The position could not be told in a frame. -/
  | positionUnread
  /-- The listener to the playhead failed on a column. -/
  | stepListenerFailed (column : Int)
  /-- The listener to pattern changes failed. -/
  | patternListenerFailed
deriving DecidableEq

namespace Notice

def severity : Notice → Severity
  | .unknownPreset _ => .warning
  | .positionUnread | .stepListenerFailed _ | .patternListenerFailed => .error

def message : Notice → String
  | .unknownPreset name => "Unknown preset " ++ quoted name ++ " ignored"
  | .positionUnread => "Cycle position accessor failed - playhead not updated this frame"
  | .stepListenerFailed column => "Playhead step callback failed at column " ++ toString column
  | .patternListenerFailed => "Pattern change callback failed"

end Notice

end StepSequencer
