import StepSequencer.Proofs.Announcements
import StepSequencer.Proofs.BrokenFrame
import StepSequencer.Proofs.Edits
import Mathlib.Logic.Relation

/-! What goes together in a session: the playhead runs over the columns of the grid, and where there
is no grid nothing happens until a pattern is opened. -/

namespace StepSequencer

namespace Transport

variable {transport : Transport}

theorem stepCount_runFrame (transport : Transport) (listener : Option Listener) :
    (transport.runFrame listener).playhead.stepCount = transport.playhead.stepCount := by
  cases hr : transport.playhead.running with
  | false =>
    rw [runFrame, if_neg (by simp [hr])]
  | true =>
    by_cases h : transport.Readable
    · obtain ⟨mid, hm, hends⟩ := h.goes_on hr listener
      rw [hends]
      exact (kept_scheduleFrame mid).stepCount.trans hm.stepCount
    · obtain ⟨event, position, fault, -, hends⟩ := breaks_off_of_not_readable h hr listener
      rw [hends]
      rfl

theorem stepCount_fire (transport : Transport) (listener : Option Listener) (timer : Timer) :
    (transport.fire listener timer).playhead.stepCount = transport.playhead.stepCount := by
  cases hj : timer.job with
  | frame =>
    rw [fire_frame listener hj]
    exact stepCount_runFrame (transport.reach timer) listener
  | emission =>
    rw [fire_emission listener hj]
    rfl

end Transport

namespace Session

/-- The grid is valid, and the playhead has as many columns. Without a grid the playhead is at rest,
and nothing is to be announced. -/
structure Aligned (session : Session) : Prop where
  valid : ∀ grid, session.grid = some grid → grid.Valid
  stepCount : ∀ grid, session.grid = some grid →
    session.transport.playhead.stepCount = grid.stepCount
  running : session.grid = none → session.transport.playhead.running = false
  pending : session.grid = none → session.pending = none

variable {session after : Session}

theorem Aligned.of_grid {grid : Grid} (hg : session.grid = some grid) (hv : grid.Valid)
    (hs : session.transport.playhead.stepCount = grid.stepCount) : session.Aligned where
  valid _ ho := Option.some.inj (hg.symm.trans ho) ▸ hv
  stepCount _ ho := Option.some.inj (hg.symm.trans ho) ▸ hs
  running hn := absurd (hg.symm.trans hn) nofun
  pending hn := absurd (hg.symm.trans hn) nofun

theorem Aligned.of_closed (hg : session.grid = none)
    (hr : session.transport.playhead.running = false) (hp : session.pending = none) :
    session.Aligned where
  valid _ ho := absurd (hg.symm.trans ho) nofun
  stepCount _ ho := absurd (hg.symm.trans ho) nofun
  running _ := hr
  pending _ := hp

theorem Aligned.congr (h : session.Aligned) (hg : after.grid = session.grid)
    (hs : after.transport.playhead.stepCount = session.transport.playhead.stepCount)
    (hr : session.transport.playhead.running = false → after.transport.playhead.running = false)
    (hp : session.pending = none → after.pending = none) : after.Aligned where
  valid grid ho := h.valid grid (hg ▸ ho)
  stepCount grid ho := hs.trans (h.stepCount grid (hg ▸ ho))
  running hn := hr (h.running (hg ▸ hn))
  pending hn := hp (h.pending (hg ▸ hn))

theorem Aligned.log (h : session.Aligned) (event : Event) : (session.log event).Aligned :=
  h.congr rfl rfl id id

theorem aligned_setGrid (session : Session) {grid : Grid} (hv : grid.Valid) :
    (session.setGrid grid).Aligned := .of_grid rfl hv rfl

theorem Aligned.stop (h : session.Aligned) : session.stop.Aligned :=
  h.congr rfl rfl (fun _ => rfl) id

theorem playhead_cancelPending (session : Session) :
    session.cancelPending.transport.playhead = session.transport.playhead := by
  rw [cancelPending]
  split <;> rfl

theorem Aligned.cancelPending (h : session.Aligned) : session.cancelPending.Aligned := by
  have hh := playhead_cancelPending session
  exact h.congr (grid_cancelPending session) (congrArg _ hh) (fun hr => hh ▸ hr)
    fun _ => pending_cancelPending session

theorem aligned_close (session : Session) : session.close.Aligned := by
  refine .of_closed rfl ?_ (pending_cancelPending session.stop)
  change session.stop.cancelPending.transport.playhead.running = false
  rw [playhead_cancelPending]
  rfl

theorem Aligned.openText (h : session.Aligned) (text : List Char) (bars : Int) :
    (session.openText text bars).1.Aligned := by
  rcases openText_cases session text bars with ⟨error, -, he⟩ | ⟨grid, hg, he⟩ <;> rw [he]
  · exact h.stop.cancelPending
  · exact aligned_setGrid _ (Grid.Initial.ofText hg).valid

section Listening

variable {announce : Announcement}
  (ha : ∀ (session : Session) (grid : Grid), session.Aligned → (announce session grid).1.Aligned)

include ha

theorem Aligned.applyVia (h : session.Aligned) : (session.applyVia announce).1.Aligned := by
  rcases applyVia_cases session announce with ⟨he, -⟩ | ⟨grid, -, he⟩
  · exact he ▸ h.cancelPending
  · exact he ▸ ha _ grid h.cancelPending

theorem Aligned.emitVia (h : session.Aligned) : (session.emitVia announce).Aligned := by
  have hd : { session with pending := none : Session }.Aligned := h.congr rfl rfl id fun _ => rfl
  rcases emitVia_cases session announce with ⟨-, he⟩ | he | he
  · exact he ▸ hd
  · exact he ▸ hd.applyVia ha
  · exact he ▸ (hd.applyVia ha).log _

theorem Aligned.scheduleVia {grid : Grid} (h : session.Aligned) (hg : session.grid = some grid)
    (looped : Bool) : (session.scheduleVia announce looped).Aligned := by
  have hc := h.cancelPending
  rcases scheduleVia_cases session announce looped with he | ⟨due, he⟩
  · exact he ▸ hc.emitVia ha
  · have hk := (grid_cancelPending session).trans hg
    exact he ▸ .of_grid hk (hc.valid grid hk) (hc.stepCount grid hk)

theorem Aligned.editVia (h : session.Aligned) (looped : Bool) (change : Edit) :
    (session.editVia announce looped change).1.Aligned := by
  rcases editVia_cases session announce looped change with
    ⟨-, he⟩ | ⟨grid, landed, edited, hg, hl, hk, he⟩ <;> rw [he]
  · exact h
  · have hv := h.valid grid hg
    have hs := aligned_setGrid session (Grid.eq_apply_of_tryApply hv hl ▸ hv.apply change)
    rcases hk with rfl | ⟨notice, rfl⟩
    · exact hs.scheduleVia ha rfl looped
    · exact (hs.log _).scheduleVia ha rfl looped

end Listening

theorem Acts.aligned {looped : Bool} (ha : Acts looped session after) (h : session.Aligned) :
    after.Aligned := by
  induction ha with
  | done => exact h
  | plan script _ ih => exact ih (h.congr rfl rfl id id)
  | close _ ih => exact ih (aligned_close _)
  | toggleStep row col _ _ ihc ih =>
    exact ih (h.editVia (fun session grid hs => ihc session grid (hs.log _)) _ _)

theorem Aligned.play (h : session.Aligned) (looped : Bool) : (session.play looped).1.Aligned := by
  rcases play_cases session looped with ⟨he, -⟩ | ⟨grid, hg, he | he⟩ <;> rw [he]
  · exact h
  · exact aligned_setGrid session (h.valid grid hg)
  · exact .of_grid rfl (h.valid grid hg) (Transport.kept_begin _).stepCount

theorem Aligned.fireVia {announce : Announcement}
    (ha : ∀ (session : Session) (grid : Grid), session.Aligned → (announce session grid).1.Aligned)
    (hs : session.Sound) (h : session.Aligned) (listener : Option Listener) (timer : Timer) :
    (session.fireVia announce listener timer).Aligned := by
  have hf : { session with transport := session.transport.fire listener timer : Session }.Aligned :=
    h.congr rfl (Transport.stepCount_fire _ listener timer)
      (fun hr => hs.transport.fire_of_stopped hr listener timer ▸ hr) id
  rw [Session.fireVia]
  cases timer.job with
  | frame => exact hf
  | emission => exact hf.emitVia ha

theorem Aligned.step {operation : Operation} (hs : session.Sound) (h : session.Aligned)
    (ht : Step session operation after) : after.Aligned := by
  obtain ⟨announce, looped, hc, -, rfl⟩ := ht
  have ha (session : Session) (grid : Grid) (h : session.Aligned) :
      (announce session grid).1.Aligned := (hc session grid).aligned (h.log _)
  cases operation with
  | openText text bars => exact h.openText text bars
  | close => exact aligned_close session
  | apply => exact h.applyVia ha
  | edit change => exact h.editVia ha looped change
  | play => exact h.play looped
  | stop => exact h.stop
  | fire listener timer => exact h.fireVia ha hs listener timer
  | setEngine engine => exact h.congr rfl rfl id id
  | wait now => exact h.congr rfl rfl id id

theorem Reached.aligned {stirred : Bool} (h : Reached stirred session) : session.Aligned := by
  induction h with
  | make made =>
    obtain ⟨transport, ht, rfl⟩ := make_eq_ok made
    exact .of_closed rfl (Transport.Sound.make ht).2.2 rfl
  | step hr hs ih => exact ih.step hr.sound hs

/-- The announcement that is remembered is the one to come. -/
theorem Sound.waiting_of_pending (h : session.Sound) {id : Nat} (hp : session.pending = some id) :
    ∃ timer, session.transport.agenda.waiting .emission = [timer] ∧ timer.id = id := by
  obtain ⟨timer, hm, rfl⟩ := h.pending_waiting id hp
  have hl := h.transport.wellNumbered.length_waiting_remove hm
  rw [h.waiting_remove_pending hp] at hl
  obtain ⟨only, ho⟩ := List.length_eq_one_iff.mp hl.symm
  rw [ho] at hm ⊢
  exact ⟨only, rfl, congrArg Timer.id (List.mem_singleton.mp hm).symm⟩

/-! Without a grid. -/

/-- Any step but the opening of a pattern. -/
def Unopened (before after : Session) : Prop :=
  ∃ operation : Operation, (∀ text bars, operation ≠ .openText text bars) ∧
    Step before operation after

theorem cancelPending_of_none (h : session.pending = none) : session.cancelPending = session := by
  rw [cancelPending, h]

theorem Aligned.unopened (hs : session.Sound) (h : session.Aligned) (hg : session.grid = none)
    (ht : Unopened session after) :
    after.grid = none ∧ after.transport.journal = session.transport.journal := by
  obtain ⟨operation, hn, announce, looped, -, hp, rfl⟩ := ht
  have hc : session.cancelPending = session := cancelPending_of_none (h.pending hg)
  cases operation with
  | openText text bars => exact absurd rfl (hn text bars)
  | close =>
    have hk : session.stop.cancelPending = session.stop := cancelPending_of_none (h.pending hg)
    exact ⟨rfl, by rw [perform, close, hk]; rfl⟩
  | apply =>
    rw [perform]
    rcases applyVia_cases session announce with ⟨he, -⟩ | ⟨grid, ho, -⟩
    · rw [he, hc]
      exact ⟨hg, rfl⟩
    · exact absurd (ho.symm.trans hg) (Option.some_ne_none grid)
  | edit change =>
    rw [perform]
    rcases editVia_cases session announce looped change with ⟨-, he⟩ | ⟨grid, -, -, ho, -⟩
    · rw [he]
      exact ⟨hg, rfl⟩
    · exact absurd (ho.symm.trans hg) (Option.some_ne_none grid)
  | play =>
    rw [perform]
    rcases play_cases session looped with ⟨he, -⟩ | ⟨grid, ho, -⟩
    · rw [he]
      exact ⟨hg, rfl⟩
    · exact absurd (ho.symm.trans hg) (Option.some_ne_none grid)
  | stop => exact ⟨hg, rfl⟩
  | fire listener timer =>
    rw [perform, Session.fireVia, hs.transport.fire_of_stopped (h.running hg)]
    cases hj : timer.job with
    | frame => exact ⟨hg, rfl⟩
    | emission =>
      -- An announcement that is on the agenda is remembered, and here none is.
      have hm := hs.waiting_pending timer (Agenda.mem_waiting.mpr ⟨hp.1, hj⟩)
      exact absurd (hm.symm.trans (h.pending hg)) (Option.some_ne_none timer.id)
  | setEngine engine => exact ⟨hg, rfl⟩
  | wait now => exact ⟨hg, rfl⟩

theorem Aligned.journal_of_closed (hs : session.Sound) (h : session.Aligned)
    (hg : session.grid = none) (ht : Relation.ReflTransGen Unopened session after) :
    after.grid = none ∧ after.transport.journal = session.transport.journal := by
  have hall : after.Sound ∧ after.Aligned ∧ after.grid = none ∧
      after.transport.journal = session.transport.journal := by
    induction ht with
    | refl => exact ⟨hs, h, hg, rfl⟩
    | tail _ hstep ih =>
      obtain ⟨hs, h, hg, hj⟩ := ih
      obtain ⟨hn, hk⟩ := h.unopened hs hg hstep
      obtain ⟨operation, -, hstep⟩ := hstep
      exact ⟨hs.step hstep, h.step hs hstep, hn, hk.trans hj⟩
  exact hall.2.2

/-- In all that can happen to a session, the announcement that it remembers is the only one to come.
A closed one has none to come and its playhead is at rest, and it calls no listener and reads no
clock or engine until a pattern is opened, whichever timers fire. The playhead of an open one has
the columns of its grid. -/
theorem orderly {stirred : Bool} (h : Reached stirred session) :
    (session.pending = none → session.transport.agenda.waiting .emission = []) ∧
    (∀ id, session.pending = some id →
      ∃ timer, session.transport.agenda.waiting .emission = [timer] ∧ timer.id = id) ∧
    (session.grid = none → session.transport.agenda.waiting .emission = [] ∧
      session.transport.playhead.running = false ∧
      ∀ after, Relation.ReflTransGen Unopened session after →
        after.grid = none ∧ after.transport.journal = session.transport.journal) ∧
    ∀ grid, session.grid = some grid →
      session.transport.playhead.stepCount = grid.stepCount := by
  refine ⟨h.sound.waiting_of_none, fun id => h.sound.waiting_of_pending, fun hg => ?_,
    h.aligned.stepCount⟩
  refine ⟨h.sound.waiting_of_none (h.aligned.pending hg), h.aligned.running hg, fun after ht => ?_⟩
  exact h.aligned.journal_of_closed h.sound hg ht

/-- The listener closes the pattern in the call that two edits of it have led to, and fails. -/
theorem orderly_closed_in_call :
    let closed : Session := { script := [⟨.close, some "down"⟩] }
    let playing := ((closed.openText "bd*2".toList 2).1.play true).1
    let edited := ((playing.edit true (.toggleStep 0 1)).1.edit true (.resize 48)).1
    let left := edited.fire none ⟨3, 0.15, .emission⟩
    edited.transport.playhead.running = true ∧ edited.transport.playhead.stepCount = 48 ∧
      (∃ timer, edited.transport.agenda.waiting .emission = [timer] ∧ timer.id = 3) ∧
      left.transport.announced.length = 1 ∧ left.transport.agenda.waiting .emission = [] ∧
      left.transport.playhead.running = false ∧
      ∀ after, Relation.ReflTransGen Unopened left after →
        after.grid = none ∧ after.transport.journal = left.transport.journal := by
  intro closed playing edited left
  have hmade : make {} none 0.0 true closed.script = .ok closed := by rfl
  have hplay : Reached false playing := ((Reached.make hmade).openText _ 2).play true
  have h : Reached true edited :=
    (hplay.edit true (by decide +kernel)).edit true (by decide +kernel)
  have hm : ⟨3, 0.15, .emission⟩ ∈ edited.transport.agenda.timers := by decide +kernel
  obtain ⟨grid, hg, hn⟩ := Option.map_eq_some_iff.mp
    (show edited.grid.map Grid.stepCount = some 48 by decide +kernel)
  obtain ⟨-, hpending, -, hsteps⟩ := orderly h
  obtain ⟨-, -, hclosed, -⟩ := orderly (h.fire none hm)
  obtain ⟨hwait, hrest, hsilent⟩ := hclosed (by decide +kernel)
  exact ⟨by decide +kernel, (hsteps grid hg).trans (congrArg _ hn), hpending 3 (by decide +kernel),
    by decide +kernel, hwait, hrest, hsilent⟩

end Session

end StepSequencer
