import StepSequencer.Playback.Agenda
import StepSequencer.Playback.Notice
import StepSequencer.Playback.Position

/-! The transport: a playhead that follows a clock, frame by frame. -/

namespace StepSequencer

structure Playhead where
  /-- The number of columns. It may change while the playhead runs. -/
  stepCount : Int := stepsPerBar
  tempo : Float := defaultTempo
  /-- The seconds from one frame to the next. -/
  frameInterval : Float := 1.0 / 60.0
  startTime : Float := 0.0
  running : Bool := false
  /-- The timer of the next frame. -/
  frame : Option Nat := none
  /-- The column that was reported last since the start. -/
  lastColumn : Option Int := none
  position : Float := 0.0

/-- What can be noticed from outside. -/
inductive Event where
  | clockRead
  | engineRead
  /-- The playhead reported a column to its listener. -/
  | column (column : Int)
  /-- A pattern was announced together with its number of bars. -/
  | emission (text : List Char) (bars : Nat)
  | notice (notice : Notice)
  /-- A frame broke off. -/
  | escape (fault : Fault)

/-- What the listener to the playhead may ask of it. -/
inductive Command where
  | stop
  | start
deriving DecidableEq

/-- What the listener does with a column: commands in order, after which it may fail. -/
structure Response where
  commands : List Command := []
  fails : Bool := false

/-- A listener to the playhead answers to the columns reported before, the latest first, and a new
column. -/
abbrev Listener := List Int → Int → Response

structure Transport where
  playhead : Playhead := {}
  agenda : Agenda := {}
  /-- The engine's clock, if there is one: the cycles it would tell now, or its failure. -/
  engine : Option (Except String Float) := none
  /-- All events, the latest first. -/
  journal : List Event := []

inductive PlaybackError where
  | frameInterval
  | noLoop
deriving DecidableEq

def PlaybackError.message : PlaybackError → String
  | .frameInterval => "frame_interval must be positive"
  | .noLoop => "no running event loop"

def Playhead.check (playhead : Playhead) : Except PlaybackError Playhead :=
  if playhead.frameInterval ≤ 0.0 then .error .frameInterval else .ok playhead

def Playhead.column (playhead : Playhead) : Except Fault Int :=
  columnAt playhead.position playhead.stepCount

namespace Transport

/-- A playhead at rest, on an agenda of its own. -/
def make (stepCount : Int) (tempo frameInterval : Float) (engine : Option (Except String Float))
    (now : Float) : Except PlaybackError Transport := do
  let playhead ← Playhead.check { stepCount, tempo, frameInterval }
  return { playhead, agenda := { now }, engine }

def driven (transport : Transport) : Bool := transport.engine.isSome

def log (transport : Transport) (event : Event) : Transport :=
  { transport with journal := event :: transport.journal }

/-- The columns reported so far, the latest first. -/
def reported (transport : Transport) : List Int :=
  transport.journal.filterMap fun
    | .column column => some column
    | _ => none

/-- The patterns announced so far with their bars, the latest first. -/
def announced (transport : Transport) : List (List Char × Nat) :=
  transport.journal.filterMap fun
    | .emission text bars => some (text, bars)
    | _ => none

/-- The position now: from the engine if there is one, from the time since the start otherwise. -/
def readPosition (transport : Transport) : Transport × Except Fault Float :=
  let playhead := transport.playhead
  match transport.engine with
  | some (.ok cycles) => (transport.log .engineRead, cyclePosition cycles playhead.stepCount)
  | some (.error message) => (transport.log .engineRead, .error (.engine message))
  | none =>
    (transport.log .clockRead,
      tempoPosition (transport.agenda.now - playhead.startTime) playhead.tempo playhead.stepCount)

/-- Starts at the first column with a frame that is due at once. A running playhead runs on. -/
def begin (transport : Transport) : Transport :=
  if transport.playhead.running then transport
  else
    { transport.log .clockRead with
      playhead.startTime := transport.agenda.now
      playhead.running := true
      playhead.frame := some transport.agenda.nextId
      playhead.lastColumn := none
      playhead.position := 0.0
      agenda := transport.agenda.scheduleNow .frame }

/-- Starts the playhead, for which there must be a clock to run frames on. What is done before a
failure stays done. -/
def startM (looped : Bool) : ExceptT PlaybackError (StateM Transport) Unit := do
  unless (← get).playhead.running || looped do
    throw .noLoop
  modify begin

def start (transport : Transport) (looped : Bool) : Except PlaybackError Transport :=
  match (startM looped).run.run transport with
  | (.ok _, started) => .ok started
  | (.error error, _) => .error error

/-- Cancels the next frame and goes back to the first column. -/
def stop (transport : Transport) : Transport :=
  { transport with
    playhead.running := false
    playhead.frame := none
    playhead.lastColumn := none
    playhead.position := 0.0
    agenda := match transport.playhead.frame with
      | some id => transport.agenda.remove id
      | none => transport.agenda }

def obey (transport : Transport) : Command → Transport
  | .stop => transport.stop
  | .start => transport.begin

def scheduleFrame (transport : Transport) : Transport :=
  if transport.playhead.running then
    { transport with
      playhead.frame := some transport.agenda.nextId
      agenda := transport.agenda.scheduleIn transport.playhead.frameInterval .frame }
  else transport

def report (transport : Transport) (listener : Option Listener) (column : Int) : Transport :=
  match listener with
  | none => transport
  | some respond =>
    let response := respond transport.reported column
    let obeyed := response.commands.foldl obey (transport.log (.column column))
    if response.fails then obeyed.log (.notice (.stepListenerFailed column)) else obeyed

/-- Moves the playhead to a position, and reports its column if it is another than the last one.
The frame breaks off if the position falls in no column. -/
def moveTo (transport : Transport) (listener : Option Listener) (position : Float) : Transport :=
  let moved := { transport with playhead.position := position }
  match moved.playhead.column with
  | .error fault => moved.log (.escape fault)
  | .ok column =>
    if moved.playhead.lastColumn = some column then moved.scheduleFrame
    else
      let noted := { moved with playhead.lastColumn := some column }
      (noted.report listener column).scheduleFrame

/-- One frame. A position that cannot be told leaves the playhead where it is until the next
frame. -/
def runFrame (transport : Transport) (listener : Option Listener) : Transport :=
  let idle := { transport with playhead.frame := none }
  if idle.playhead.running then
    match idle.readPosition with
    | (read, .ok position) => read.moveTo listener position
    | (read, .error _) => (read.log (.notice .positionUnread)).scheduleFrame
  else idle

def fire (transport : Transport) (listener : Option Listener) (timer : Timer) : Transport :=
  let reached := { transport with agenda := transport.agenda.reach timer }
  match timer.job with
  | .frame => reached.runFrame listener
  | .emission => reached

/-- Lets some seconds pass, in which at most `limit` timers fire. -/
def advance (transport : Transport) (listener : Option Listener) (limit : Nat) (seconds : Float) :
    Transport :=
  let time := transport.agenda.now + seconds
  { Agenda.runUntil agenda (·.fire listener ·) time limit transport with agenda.now := time }

end Transport

end StepSequencer
