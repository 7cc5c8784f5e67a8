import StepSequencer.Proofs.Frames

/-! The playhead does not meddle with announcements: whatever it does, it makes none, and those that
wait on the agenda go on waiting. -/

namespace StepSequencer.Transport

structure Quiet (before after : Transport) : Prop where
  waiting : after.agenda.waiting .emission = before.agenda.waiting .emission
  announced : after.announced = before.announced

theorem Quiet.refl (transport : Transport) : Quiet transport transport := ⟨rfl, rfl⟩

theorem Quiet.trans {first second third : Transport} (h : Quiet first second)
    (h' : Quiet second third) : Quiet first third :=
  ⟨h'.waiting.trans h.waiting, h'.announced.trans h.announced⟩

variable {transport : Transport}

theorem quiet_begin (transport : Transport) : Quiet transport transport.begin := by
  cases hr : transport.playhead.running with
  | true => rw [begin_of_running hr]; exact .refl transport
  | false =>
    constructor
    · rw [(begin_of_stopped hr).1]
      exact Agenda.waiting_scheduleAt_of_ne _ _ (by decide)
    · simp only [begin, hr]
      rfl

theorem Sound.quiet_stop (h : transport.Sound) : Quiet transport transport.stop := by
  refine ⟨?_, rfl⟩
  rw [Transport.stop]
  cases hf : transport.playhead.frame with
  | none => rfl
  | some id =>
    obtain ⟨timer, hm, rfl⟩ := h.frame_waiting id hf
    obtain ⟨hm, hj⟩ := Agenda.mem_waiting.mp hm
    exact h.wellNumbered.waiting_remove_of_ne hm (by simp [hj])

theorem Sound.quiet_obey (h : transport.Sound) (command : Command) :
    Quiet transport (transport.obey command) := by
  cases command with
  | stop => exact h.quiet_stop
  | start => exact quiet_begin transport

theorem Sound.quiet_foldl_obey (h : transport.Sound) (commands : List Command) :
    Quiet transport (commands.foldl Transport.obey transport) := by
  induction commands generalizing transport with
  | nil => exact .refl transport
  | cons command more ih => exact (h.quiet_obey command).trans (ih (h.obey command).1)

theorem quiet_scheduleFrame (transport : Transport) : Quiet transport transport.scheduleFrame := by
  rw [scheduleFrame]
  split
  · exact ⟨Agenda.waiting_scheduleAt_of_ne _ _ (by decide), rfl⟩
  · exact .refl transport

theorem Sound.quiet_report (h : transport.Sound) (listener : Option Listener) (column : Int) :
    Quiet transport (transport.report listener column) := by
  cases listener with
  | none => exact .refl transport
  | some respond =>
    obtain ⟨obeyed, rfl, ha, -, hn⟩ := @report_some transport respond column
    have hl : (transport.log (.column column)).Sound := h.congr rfl rfl
    have ho := hl.quiet_foldl_obey (respond transport.reported column).commands
    exact ⟨(congrArg (·.waiting .emission) ha).trans ho.waiting, hn.trans ho.announced⟩

theorem MidFrame.quiet {mid : Transport} (hm : MidFrame transport mid) : Quiet transport mid :=
  ⟨congrArg (·.waiting .emission) hm.agenda, hm.announced⟩

theorem quiet_runFrame (h : transport.agenda.WellNumbered) (listener : Option Listener) :
    Quiet transport (transport.runFrame listener) := by
  cases frameEnds transport listener with
  | unreported middle _ ends => exact ends ▸ middle.quiet.trans (quiet_scheduleFrame _)
  | @reported _ _ column middle _ _ _ ends =>
    have hr := middle.quiet.trans ((middle.sound h).quiet_report listener column)
    exact ends ▸ hr.trans (quiet_scheduleFrame _)
  | broken middle _ _ ends => exact ends ▸ middle.quiet

theorem Sound.quiet_fire (h : transport.Sound) (listener : Option Listener) {timer : Timer}
    (hm : timer ∈ transport.agenda.timers) (hj : timer.job = .frame) :
    Quiet transport (transport.fire listener timer) := by
  rw [fire_frame listener hj]
  have hr : Quiet transport (transport.reach timer) :=
    ⟨waiting_reach_of_ne h.wellNumbered hm (by simp [hj]), rfl⟩
  exact hr.trans (quiet_runFrame (h.wellNumbered.reach timer) listener)

end StepSequencer.Transport
