import StepSequencer.Session

/-! Runs of a session: what is done to it from outside, in any order, while its timers fire and its
listener acts on it. -/

namespace StepSequencer

/-- What a listener may do to a session in the course of a call: close it, and toggle steps, which
may bring about calls within the call. What it will do in later calls is its own affair. -/
inductive Session.Acts (looped : Bool) : Session → Session → Prop
  | done (session : Session) : Acts looped session session
  | plan {session after : Session} (script : List Reaction)
      (more : Acts looped { session with script } after) : Acts looped session after
  | close {session after : Session} (more : Acts looped session.close after) :
      Acts looped session after
  | toggleStep {session after : Session} {announce : Announcement} (row col : Int)
      (calls : ∀ (session : Session) (grid : Grid),
        Acts looped (session.log (.emission grid.text grid.bars)) (announce session grid).1)
      (more : Acts looped (session.editVia announce looped (.toggleStep row col)).1 after) :
      Acts looped session after

/-- To announce a grid is to call a listener with its pattern. The listener may fail at the end. -/
def Announcement.Calls (looped : Bool) (announce : Announcement) : Prop :=
  ∀ (session : Session) (grid : Grid),
    Session.Acts looped (session.log (.emission grid.text grid.bars)) (announce session grid).1

namespace Session

inductive Operation where
  | openText (text : List Char) (bars : Int)
  | close
  | apply
  | edit (change : Edit)
  | play
  | stop
  | fire (listener : Option Listener) (timer : Timer)
  | setEngine (engine : Option (Except String Float))
  /-- The clock shows another time. -/
  | wait (now : Float)

def perform (session : Session) (announce : Announcement) (looped : Bool) : Operation → Session
  | .openText text bars => (session.openText text bars).1
  | .close => session.close
  | .apply => (session.applyVia announce).1
  | .edit change => (session.editVia announce looped change).1
  | .play => (session.play looped).1
  | .stop => session.stop
  | .fire listener timer => session.fireVia announce listener timer
  | .setEngine engine => { session with transport.engine := engine }
  | .wait now => { session with transport.agenda.now := now }

/-- Any timer on the agenda may fire, in whatever order. What it sets off runs on the clock. -/
def Operation.Possible (session : Session) (looped : Bool) : Operation → Prop
  | .fire _ timer => timer ∈ session.transport.agenda.timers ∧ looped = true
  | _ => True

/-- An operation, with a listener that may act on the session, and with a clock to wait on or
without. -/
def Step (before : Session) (operation : Operation) (after : Session) : Prop :=
  ∃ announce looped, announce.Calls looped ∧ operation.Possible before looped ∧
    after = before.perform announce looped operation

/-- The session is open, and its grid can be edited so. -/
def allows (session : Session) (change : Edit) : Bool :=
  session.grid.any fun grid => (grid.tryApply change).isOk

/-- Whether the pattern that is open has been edited, or announced on demand, once the operation is
done and since a pattern was last asked to be opened. A listener that edits it by itself is called
by one of the two. -/
def Operation.stirs (before : Session) (stirred : Bool) : Operation → Bool
  | .openText .. => false
  | .apply => true
  | .edit change => stirred || before.allows change
  | _ => stirred

/-- The sessions that a run leads to, each between two operations. -/
inductive Reached : (stirred : Bool) → Session → Prop
  | make {settings : Settings} {engine : Option (Except String Float)} {now : Float}
      {listening : Bool} {script : List Reaction} {session : Session}
      (made : make settings engine now listening script = .ok session) : Reached false session
  | step {stirred : Bool} {before after : Session} {operation : Operation}
      (reached : Reached stirred before) (step : Step before operation after) :
      Reached (operation.stirs before stirred) after

end Session

end StepSequencer
