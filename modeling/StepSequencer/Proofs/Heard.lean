import StepSequencer.Proofs.Alignment

/-! No edit is lost but by a pattern that cannot be opened: otherwise an open pattern that was
edited is what the listener heard last, or the timer of its announcement waits on the agenda. -/

namespace StepSequencer.Session

/-- The listener was called last with the grid as it is now, unless a call is still to come. -/
def Heard (session : Session) : Prop :=
  session.listening = true → ∀ grid, session.grid = some grid →
    session.transport.agenda.waiting .emission ≠ [] ∨
      session.transport.announced.head? = some (grid.text, grid.bars)

variable {session after : Session}

theorem Heard.of_quiet (h : session.Heard) (hl : after.listening = session.listening)
    (hg : after.grid = session.grid) (hq : session.transport.Quiet after.transport) :
    after.Heard := by
  intro hx grid hy
  rw [hq.waiting, hq.announced]
  exact h (hl ▸ hx) grid (hg ▸ hy)

theorem heard_of_closed (h : session.grid = none) : session.Heard :=
  fun _ _ hg => absurd (h.symm.trans hg) nofun

theorem heard_of_deaf (h : session.listening = false) : session.Heard :=
  fun hl => absurd (h.symm.trans hl) nofun

theorem heard_close (session : Session) : session.close.Heard := heard_of_closed rfl

/-- A call lets the listener hear the grid, whatever it does with it later. -/
theorem heard_log_emission {grid : Grid} (h : session.grid = some grid) :
    (session.log (.emission grid.text grid.bars)).Heard := by
  intro _ other ho
  obtain rfl := Option.some.inj (h.symm.trans ho)
  exact .inr rfl

section Listening

variable {announce : Announcement}
  (ha : ∀ (session : Session) (grid : Grid), session.grid = some grid →
    (announce session grid).1.Heard)

include ha

theorem heard_applyVia (session : Session) : (session.applyVia announce).1.Heard := by
  rcases applyVia_cases session announce with ⟨he, hg | hl⟩ | ⟨grid, hg, he⟩ <;> rw [he]
  · exact heard_of_closed (by rw [grid_cancelPending, hg])
  · exact heard_of_deaf (by rw [listening_cancelPending, hl])
  · exact ha _ grid (by rw [grid_cancelPending, hg])

theorem heard_emitVia (session : Session) : (session.emitVia announce).Heard := by
  rcases emitVia_cases session announce with ⟨hg, he⟩ | he | he <;> rw [he]
  · exact heard_of_closed hg
  · exact heard_applyVia ha _
  · exact (heard_applyVia ha _).of_quiet rfl rfl ⟨rfl, rfl⟩

theorem heard_scheduleVia (session : Session) (looped : Bool) :
    (session.scheduleVia announce looped).Heard := by
  rcases scheduleVia_cases session announce looped with he | ⟨due, he⟩ <;> rw [he]
  · exact heard_emitVia ha _
  · intro _ _ _
    exact .inl (by simp [Agenda.waiting_scheduleAt])

theorem heard_editVia {change : Edit} (hh : session.allows change = false → session.Heard)
    (looped : Bool) : (session.editVia announce looped change).1.Heard := by
  rcases editVia_cases session announce looped change with
    ⟨hn, he⟩ | ⟨grid, landed, edited, -, -, -, he⟩ <;> rw [he]
  · exact hh hn
  · exact heard_scheduleVia ha edited looped

end Listening

/-- Within a call the listener may well edit the grid, but it hears of that in turn. -/
theorem Acts.heard {looped : Bool} (h : Acts looped session after) (hs : session.Heard) :
    after.Heard := by
  induction h with
  | done => exact hs
  | plan script _ ih => exact ih (hs.of_quiet rfl rfl (.refl _))
  | close _ ih => exact ih (heard_close _)
  | toggleStep row col _ _ ihc ih =>
    -- Whether the edit is announced within the call or later, what was heard before is of no use.
    refine ih (heard_editVia (fun session grid hg => ?_) (fun _ => hs) _)
    exact ihc session grid (heard_log_emission hg)

theorem heard_play (h : session.Heard) (looped : Bool) : (session.play looped).1.Heard := by
  rcases play_cases session looped with ⟨he, -⟩ | ⟨grid, hg, he | he⟩ <;> rw [he]
  · exact h
  · exact h.of_quiet rfl hg.symm ⟨rfl, rfl⟩
  · have hb := Transport.quiet_begin (session.setGrid grid).transport
    exact h.of_quiet rfl hg.symm ⟨hb.waiting, hb.announced⟩

/-- An edit and an announcement on demand make the listener hear the grid. What it heard goes out of
date only where another grid is to be opened. -/
theorem Sound.heard_step {stirred : Bool} {operation : Operation} (h : session.Sound)
    (hh : stirred = true → session.Heard) (hs : Step session operation after)
    (ht : operation.stirs session stirred = true) : after.Heard := by
  obtain ⟨announce, looped, hc, hp, rfl⟩ := hs
  have ha (session : Session) (grid : Grid) (hg : session.grid = some grid) :
      (announce session grid).1.Heard := (hc session grid).heard (heard_log_emission hg)
  cases operation with
  | openText text bars => exact absurd ht nofun
  | close => exact heard_close session
  | apply => exact heard_applyVia ha session
  | edit change =>
    refine heard_editVia ha (fun hn => hh ?_) looped
    rwa [Operation.stirs, hn, Bool.or_false] at ht
  | play => exact heard_play (hh ht) looped
  | stop => exact (hh ht).of_quiet rfl rfl h.transport.quiet_stop
  | fire listener timer =>
    rw [perform, Session.fireVia]
    cases hj : timer.job with
    | frame => exact (hh ht).of_quiet rfl rfl (h.transport.quiet_fire listener hp.1 hj)
    | emission => exact heard_emitVia ha _
  | setEngine engine => exact (hh ht).of_quiet rfl rfl ⟨rfl, rfl⟩
  | wait now => exact (hh ht).of_quiet rfl rfl ⟨rfl, rfl⟩

theorem Reached.heard {stirred : Bool} (h : Reached stirred session) :
    stirred = true → session.Heard := by
  induction h with
  | make => exact nofun
  | step hr hs ih => exact hr.sound.heard_step ih hs

end StepSequencer.Session
