import StepSequencer.Proofs.Alignment
import StepSequencer.Proofs.Doubles
import Mathlib.Logic.Relation

/-! Edits in quick succession are announced together: each puts off the announcement, and the one
that is made in the end is of the grid that all of them have led to. -/

namespace StepSequencer.Session

/-- The listener was not called, and it will be as late as before. -/
structure Unheard (before after : Session) : Prop where
  announced : after.transport.announced = before.transport.announced
  settings : after.settings = before.settings
  listening : after.listening = before.listening

theorem Unheard.refl (session : Session) : Unheard session session := ⟨rfl, rfl, rfl⟩

theorem Unheard.trans {first second third : Session} (h : Unheard first second)
    (h' : Unheard second third) : Unheard first third where
  announced := h'.announced.trans h.announced
  settings := h'.settings.trans h.settings
  listening := h'.listening.trans h.listening

variable {session after : Session}

/-- The edits of a burst that are allowed. -/
def made (session : Session) (edits : List (Float × Edit)) : List (Float × Edit) :=
  edits.filter fun edit => session.allows edit.2

section Burst

variable (announce : Announcement)

/-- The timer is that of the one announcement to come, which is of the grid. -/
structure Awaits (session : Session) (grid : Grid) (timer : Timer) : Prop where
  grid : session.grid = some grid
  waiting : session.transport.agenda.waiting .emission = [timer]
  pending : session.pending = some timer.id

/-- One edit of a burst, in its time. -/
abbrev attempt (session : Session) (now : Float) (change : Edit) : Session :=
  (session.perform announce true (.wait now)).perform announce true (.edit change)

theorem Sound.wait (h : session.Sound) (now : Float) :
    (session.perform announce true (.wait now)).Sound :=
  have hs : Step session (.wait now) (session.perform announce true (.wait now)) :=
    ⟨_, true, calls_announce true [], trivial, rfl⟩
  h.step hs

end Burst

/-- What goes on by itself: time passes, and the playhead has its frames. -/
def Passes (before after : Session) : Prop :=
  ∃ operation : Operation, ((∃ now, operation = .wait now) ∨
      ∃ listener timer, timer.job = .frame ∧ operation = .fire listener timer) ∧
    Step before operation after

theorem Awaits.passes {grid : Grid} {timer : Timer} (h : session.Awaits grid timer)
    (hs : session.Sound) (hp : Passes session after) :
    after.Sound ∧ after.Awaits grid timer ∧ Unheard session after := by
  obtain ⟨operation, hk, hstep⟩ := hp
  refine ⟨hs.step hstep, ?_⟩
  obtain ⟨announce, looped, -, hpossible, rfl⟩ := hstep
  rcases hk with ⟨now, rfl⟩ | ⟨listener, frame, hj, rfl⟩
  · exact ⟨⟨h.grid, h.waiting, h.pending⟩, rfl, rfl, rfl⟩
  · obtain ⟨hgrid, hwait, hpending⟩ := h
    have hq := hs.transport.quiet_fire listener hpossible.1 hj
    rw [perform, fireVia]
    simp only [hj]
    exact ⟨⟨hgrid, hq.waiting.trans hwait, hpending⟩, hq.announced, rfl, rfl⟩

theorem Awaits.run {grid : Grid} {timer : Timer} (h : session.Awaits grid timer)
    (hs : session.Sound) (hp : Relation.ReflTransGen Passes session after) :
    after.Awaits grid timer ∧ Unheard session after := by
  have hall : after.Sound ∧ after.Awaits grid timer ∧ Unheard session after := by
    induction hp with
    | refl => exact ⟨hs, h, .refl session⟩
    | tail _ hstep ih =>
      obtain ⟨hs, h, hu⟩ := ih
      obtain ⟨hs, h, hu'⟩ := h.passes hs hstep
      exact ⟨hs, h, hu.trans hu'⟩
  exact hall.2

end StepSequencer.Session
