/-! The agenda of a single clock: jobs that wait for their time. -/

namespace StepSequencer

inductive Job where
  | frame
  | emission
deriving DecidableEq

structure Timer where
  id : Nat
  due : Float
  job : Job
deriving DecidableEq

/-- The time, and the timers that have neither fired nor been cancelled. -/
structure Agenda where
  now : Float := 0.0
  nextId : Nat := 1
  timers : List Timer := []
deriving DecidableEq

namespace Agenda

/-- Sets a timer for a job. It gets the next number. -/
def scheduleAt (agenda : Agenda) (due : Float) (job : Job) : Agenda :=
  { agenda with
    nextId := agenda.nextId + 1
    timers := agenda.timers ++ [⟨agenda.nextId, due, job⟩] }

def scheduleNow (agenda : Agenda) (job : Job) : Agenda := agenda.scheduleAt agenda.now job

def scheduleIn (agenda : Agenda) (delay : Float) (job : Job) : Agenda :=
  agenda.scheduleAt (agenda.now + delay) job

/-- Takes a timer off the agenda, whether to cancel it or to fire it. -/
def remove (agenda : Agenda) (id : Nat) : Agenda :=
  { agenda with timers := agenda.timers.filter (·.id != id) }

def waiting (agenda : Agenda) (job : Job) : List Timer :=
  agenda.timers.filter (·.job == job)

end Agenda

/-- The first timer is due earlier than the second, or was set earlier for the same time. -/
def Timer.before (first second : Timer) : Bool :=
  first.due < second.due || (first.due == second.due && first.id < second.id)

/-- The earliest of some timers and one more. -/
def Timer.earliest : Option Timer → Timer → Option Timer
  | some best, timer => some (if timer.before best then timer else best)
  | none, timer => some timer

def Agenda.next? (agenda : Agenda) (time : Float) : Option Timer :=
  (agenda.timers.filter fun timer => decide (timer.due ≤ time)).foldl Timer.earliest none

/-- Takes a timer off the agenda and lets the time run to when it is due. -/
def Agenda.reach (agenda : Agenda) (timer : Timer) : Agenda :=
  { agenda.remove timer.id with
    now := if agenda.now < timer.due then timer.due else agenda.now }

/-- Fires the timers that are due by a time in their order, those included that are set meanwhile.
At most `limit` timers fire. -/
def Agenda.runUntil {State : Type} (agenda : State → Agenda) (fire : State → Timer → State)
    (time : Float) : (limit : Nat) → State → State
  | 0, state => state
  | limit + 1, state =>
    match (agenda state).next? time with
    | some timer => runUntil agenda fire time limit (fire state timer)
    | none => state

end StepSequencer
