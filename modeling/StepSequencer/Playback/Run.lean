import StepSequencer.Playback.Transport

/-! Runs of a transport: what is done to it from outside, in any order, while its frames fire. -/

namespace StepSequencer

namespace Transport

/-- What is done to a transport from outside. It is also a context that starts the playhead on entry
and stops it on exit. -/
inductive Operation where
  | start (looped : Bool)
  | stop
  | enter (looped : Bool)
  | exit
  | setStepCount (stepCount : Int)
  | setTempo (tempo : Float)
  | setEngine (engine : Option (Except String Float))
  /-- The clock shows another time. -/
  | wait (now : Float)
  | fire (listener : Option Listener) (timer : Timer)

/-- The transport after an operation, and the failure of a start. -/
def perform (transport : Transport) : Operation → Transport × Option PlaybackError
  | .start looped | .enter looped =>
    match (startM looped).run.run transport with
    | (.ok _, after) => (after, none)
    | (.error error, after) => (after, some error)
  | .stop | .exit => (transport.stop, none)
  | .setStepCount stepCount => ({ transport with playhead.stepCount := stepCount }, none)
  | .setTempo tempo => ({ transport with playhead.tempo := tempo }, none)
  | .setEngine engine => ({ transport with engine }, none)
  | .wait now => ({ transport with agenda.now := now }, none)
  | .fire listener timer => (transport.fire listener timer, none)

/-- A frame as a timer starts it: the timer is off the agenda, and the clock shows its time. -/
def reach (transport : Transport) (timer : Timer) : Transport :=
  { transport with agenda := transport.agenda.reach timer }

/-- Any timer on the agenda may fire, in whatever order, if its frame is an admitted one. -/
def Operation.Possible (Admits : Transport → Option Listener → Prop) (transport : Transport) :
    Operation → Prop
  | .fire listener timer =>
    timer ∈ transport.agenda.timers ∧ Admits (transport.reach timer) listener
  | _ => True

def Step (Admits : Transport → Option Listener → Prop) (before after : Transport) : Prop :=
  ∃ operation : Operation, operation.Possible Admits before ∧ after = (before.perform operation).1

/-- The transports that a run leads to, each between two operations. -/
inductive Reached (Admits : Transport → Option Listener → Prop) : Transport → Prop
  | make {stepCount : Int} {tempo frameInterval : Float} {engine : Option (Except String Float)}
      {now : Float} {transport : Transport}
      (made : make stepCount tempo frameInterval engine now = .ok transport) :
      Reached Admits transport
  | step {before after : Transport} (reached : Reached Admits before)
      (step : Step Admits before after) : Reached Admits after

/-- The position now, if it can be told, falls in a column: it is neither infinite nor no number. -/
def Readable (transport : Transport) : Prop :=
  ∀ position, transport.readPosition.2 = .ok position →
    (Binary64.ofFloat position).floor?.isSome = true

instance (transport : Transport) : Decidable transport.Readable :=
  match h : transport.readPosition.2 with
  | .error _ => .isTrue fun _ hp => absurd (h.symm.trans hp) nofun
  | .ok position =>
    decidable_of_iff ((Binary64.ofFloat position).floor?.isSome = true)
      ⟨fun hf _ hp => Except.ok.inj (h.symm.trans hp) ▸ hf, fun hr => hr position h⟩

/-- The column that a frame reports, where it is another than the last one. -/
def columnDue? (transport : Transport) : Option Int :=
  match transport.readPosition.2 with
  | .error _ => none
  | .ok position =>
    match columnAt position transport.playhead.stepCount with
    | .error _ => none
    | .ok column => if transport.playhead.lastColumn = some column then none else some column

/-- The faults that broke frames off, the latest first. -/
def escaped (transport : Transport) : List Fault :=
  transport.journal.filterMap fun
    | .escape fault => some fault
    | _ => none

end Transport

/-- A listener that may stop the playhead, but never starts it. -/
def Listener.OnlyStops (listener : Listener) : Prop :=
  ∀ earlier column, ∀ command ∈ (listener earlier column).commands, command = .stop

end StepSequencer
