import StepSequencer.Grid.Rebuild
import StepSequencer.Playback.Transport
import StepSequencer.Settings

/-! An editing session: one grid, its edits, their announcement to a listener, and the playhead.
-/

namespace StepSequencer

/-- What the listener to pattern changes does to the session while it is called. -/
inductive Act where
  | none
  | close
  | toggleStep (row col : Int)
deriving DecidableEq

/-- One call of the listener: what it does, and how it fails afterwards, if it does. -/
structure Reaction where
  act : Act := .none
  failure : Option String := .none
deriving DecidableEq

structure Session where
  settings : Settings := {}
  transport : Transport := {}
  /-- The grid of an open session. -/
  grid : Option Grid := none
  /-- The timer of the next announcement. -/
  pending : Option Nat := none
  listening : Bool := true
  /-- What the listener will do in its next calls. After them it only listens. -/
  script : List Reaction := []

inductive SessionError where
  | notOpen
  | edit (error : EditError)
  | playback (error : PlaybackError)
  | listener (message : String)
deriving DecidableEq

def SessionError.message? : SessionError → Option String
  | .notOpen => some "Editor is not open"
  | .edit error => error.message?
  | .playback error => some error.message
  | .listener message => some message

/-- A call of the listener with the pattern of a grid: the session after it, and its failure. -/
abbrev Announcement := Session → Grid → Session × Option SessionError

namespace Session

/-- A closed session with a playhead of its own. -/
def make (settings : Settings) (engine : Option (Except String Float)) (now : Float)
    (listening : Bool) (script : List Reaction) : Except PlaybackError Session := do
  let transport ← Transport.make stepsPerBar settings.tempo settings.frameInterval engine now
  return { settings, transport, listening, script }

def isOpen (session : Session) : Bool := session.grid.isSome

def log (session : Session) (event : Event) : Session :=
  { session with transport := session.transport.log event }

/-- Puts a grid in place and lets the playhead run over its columns. -/
def setGrid (session : Session) (grid : Grid) : Session :=
  { session with grid := some grid, transport.playhead.stepCount := grid.stepCount }

def stop (session : Session) : Session :=
  { session with transport := session.transport.stop }

def cancelPending (session : Session) : Session :=
  match session.pending with
  | none => session
  | some id =>
    { session with pending := none, transport.agenda := session.transport.agenda.remove id }

/-- Opens a pattern in place of what was open. Where it cannot be read, what was open stays, but it
is stopped, and what was to be announced of it no longer is. -/
def openText (session : Session) (text : List Char) (bars : Int) :
    Session × Except SessionError Grid :=
  let ready := session.stop.cancelPending
  match Grid.tryOfText text bars with
  | .error error => (ready, .error (.edit error))
  | .ok grid => (ready.setGrid grid, .ok grid)

/-- Stops the playhead, drops what is not yet announced, and gives up the grid. -/
def close (session : Session) : Session :=
  { session.stop.cancelPending with grid := none }

/-- Announces the grid at once. The result is the pattern, or the failure of the listener. -/
def applyVia (announce : Announcement) (session : Session) :
    Session × Except SessionError (List Char) :=
  let ready := session.cancelPending
  match ready.grid with
  | none => (ready, .error .notOpen)
  | some grid =>
    if ready.listening then
      match announce ready grid with
      | (called, some error) => (called, .error error)
      | (called, none) => (called, .ok grid.text)
    else (ready, .ok grid.text)

/-- Announces the grid of an open session. A failure of the listener is only reported. -/
def emitVia (announce : Announcement) (session : Session) : Session :=
  let due := { session with pending := none }
  if due.isOpen then
    match due.applyVia announce with
    | (applied, .ok _) => applied
    | (applied, .error _) => applied.log (.notice .patternListenerFailed)
  else due

/-- Announces the grid after the delay, or at once where there is no delay or no clock to wait on.
-/
def scheduleVia (announce : Announcement) (looped : Bool) (session : Session) : Session :=
  let free := session.cancelPending
  if free.settings.applyDelay ≤ 0.0 || !looped then free.emitVia announce
  else
    { free with
      pending := some free.transport.agenda.nextId
      transport.agenda := free.transport.agenda.scheduleIn free.settings.applyDelay .emission }

/-- Edits the grid of an open session and has it announced. The result is the grid after the edit,
whatever the announcement does to it. An edit that fails leaves the session as it is. -/
def editVia (announce : Announcement) (looped : Bool) (session : Session) (edit : Edit) :
    Session × Except SessionError Grid :=
  match session.grid with
  | none => (session, .error .notOpen)
  | some grid =>
    match grid.tryApply edit with
    | .error error => (session, .error (.edit error))
    | .ok changed =>
      let edited := session.setGrid changed
      let noted := match edit.unknownPreset? with
        | some name => edited.log (.notice (.unknownPreset name))
        | none => edited
      (noted.scheduleVia announce looped, .ok changed)

/-- Calls the listener with the pattern of a grid. What it does in this call is the first of a
script; calls that its doing brings about take the rest of the script. -/
def announce (looped : Bool) : (script : List Reaction) → Announcement
  | [], session, grid => (session.log (.emission grid.text grid.bars), none)
  | reaction :: rest, session, grid =>
    let called := { session.log (.emission grid.text grid.bars) with script := rest }
    let (acted, error) := match reaction.act with
      | .none => (called, none)
      | .close => (called.close, none)
      | .toggleStep row col =>
        let edited := called.editVia (announce looped rest) looped (.toggleStep row col)
        (edited.1, match edited.2 with
          | .ok _ => none
          | .error error => some error)
    (acted, error <|> reaction.failure.map .listener)

def apply (session : Session) (looped : Bool) : Session × Except SessionError (List Char) :=
  session.applyVia (announce looped session.script)

def edit (session : Session) (looped : Bool) (change : Edit) :
    Session × Except SessionError Grid :=
  session.editVia (announce looped session.script) looped change

/-- The sounds of the catalog that no row plays. -/
def availableSounds (session : Session) : Except SessionError (List SoundOption) :=
  match session.grid with
  | none => .error .notOpen
  | some grid => .ok <| session.settings.sounds.filter fun option =>
      !grid.layers.any (·.sound == option.sound)

def play (session : Session) (looped : Bool) : Session × Option SessionError :=
  match session.grid with
  | none => (session, some .notOpen)
  | some grid =>
    let ready := session.setGrid grid
    match (Transport.startM looped).run.run ready.transport with
    | (.ok _, transport) => ({ ready with transport }, none)
    | (.error error, transport) => ({ ready with transport }, some (.playback error))

def fireVia (announce : Announcement) (session : Session) (listener : Option Listener)
    (timer : Timer) : Session :=
  let reached := { session with transport := session.transport.fire listener timer }
  match timer.job with
  | .frame => reached
  | .emission => reached.emitVia announce

def fire (session : Session) (listener : Option Listener) (timer : Timer) : Session :=
  session.fireVia (announce true session.script) listener timer

/-- Lets some seconds pass, in which at most `limit` timers fire. -/
def advance (session : Session) (listener : Option Listener) (limit : Nat) (seconds : Float) :
    Session :=
  let time := session.transport.agenda.now + seconds
  { Agenda.runUntil (·.transport.agenda) (·.fire listener ·) time limit session with
    transport.agenda.now := time }

end Session

end StepSequencer
