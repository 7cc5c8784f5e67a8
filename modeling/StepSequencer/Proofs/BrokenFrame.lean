import StepSequencer.Proofs.Doubles
import StepSequencer.Proofs.Frames

/-! A frame breaks off just where its position is told and falls in no column. No frame follows it
then, although the playhead still counts as running. -/

namespace StepSequencer

theorem cyclePosition_of_no_floor {cycles position : Float} {stepCount : Int}
    (h : cyclePosition cycles stepCount = .ok position)
    (hc : (Binary64.ofFloat (cycles * Float.ofNat stepsPerCycle)).floor? = none) :
    Binary64.ofFloat position = .nan := by
  rw [cyclePosition, wrapped] at h
  split at h
  next => contradiction
  next length _ =>
    split at h
    next => contradiction
    next =>
      rw [← Except.ok.inj h]
      exact Binary64.ofFloat_floatMod hc length

namespace Transport

/-- What happens up to the end of a frame leaves the time and the measures of the playhead as they
are, and does not break the frame off. -/
structure Kept (before after : Transport) : Prop where
  now : after.agenda.now = before.agenda.now
  stepCount : after.playhead.stepCount = before.playhead.stepCount
  frameInterval : after.playhead.frameInterval = before.playhead.frameInterval
  escaped : after.escaped = before.escaped

theorem Kept.refl (transport : Transport) : Kept transport transport := ⟨rfl, rfl, rfl, rfl⟩

theorem Kept.trans {first second third : Transport} (h : Kept first second)
    (h' : Kept second third) : Kept first third where
  now := h'.now.trans h.now
  stepCount := h'.stepCount.trans h.stepCount
  frameInterval := h'.frameInterval.trans h.frameInterval
  escaped := h'.escaped.trans h.escaped

variable {transport : Transport}

theorem kept_begin (transport : Transport) : Kept transport transport.begin := by
  rw [begin]
  split <;> exact ⟨rfl, rfl, rfl, rfl⟩

theorem kept_stop (transport : Transport) : Kept transport transport.stop := by
  refine ⟨?_, rfl, rfl, rfl⟩
  rw [stop]
  cases transport.playhead.frame <;> rfl

theorem kept_foldl_obey (transport : Transport) (commands : List Command) :
    Kept transport (commands.foldl obey transport) := by
  induction commands generalizing transport with
  | nil => exact .refl transport
  | cons command more ih =>
    refine Kept.trans ?_ (ih (transport.obey command))
    cases command with
    | stop => exact kept_stop transport
    | start => exact kept_begin transport

theorem kept_report (transport : Transport) (listener : Option Listener) (column : Int) :
    Kept transport (transport.report listener column) := by
  cases listener with
  | none => exact .refl transport
  | some respond =>
    have hl : Kept transport (transport.log (.column column)) := ⟨rfl, rfl, rfl, rfl⟩
    have ho := hl.trans (kept_foldl_obey _ (respond transport.reported column).commands)
    rw [report]
    split
    · exact ho.trans ⟨rfl, rfl, rfl, rfl⟩
    · exact ho

theorem kept_scheduleFrame (transport : Transport) : Kept transport transport.scheduleFrame := by
  rw [scheduleFrame]
  split <;> exact ⟨rfl, rfl, rfl, rfl⟩

/-- A frame goes on to the next if its position falls in a column, and if it cannot be told. -/
theorem Readable.goes_on (h : transport.Readable) (hr : transport.playhead.running = true)
    (listener : Option Listener) :
    ∃ mid, Kept transport mid ∧ transport.runFrame listener = mid.scheduleFrame := by
  obtain ⟨event, hk, hok, herror⟩ := runFrame_read hr listener
  let read := { transport with playhead.frame := none : Transport }.log event
  have hread : Kept transport read := by
    rcases hk with rfl | rfl <;> exact ⟨rfl, rfl, rfl, rfl⟩
  cases hp : transport.readPosition.2 with
  | error fault =>
    refine ⟨_, ?_, herror fault hp⟩
    exact hread.trans ⟨rfl, rfl, rfl, rfl⟩
  | ok position =>
    obtain ⟨column, hc⟩ := h.column hp
    by_cases hl : transport.playhead.lastColumn = some column
    · refine ⟨_, ?_, (hok position hp).trans (moveTo_of_same listener hc hl)⟩
      exact hread.trans ⟨rfl, rfl, rfl, rfl⟩
    · refine ⟨_, Kept.trans ?_ (kept_report _ listener column),
        (hok position hp).trans (moveTo_of_new listener hc hl)⟩
      exact hread.trans ⟨rfl, rfl, rfl, rfl⟩

/-- A frame whose position falls in no column ends with that, before its next frame is set. -/
theorem breaks_off_of_not_readable (h : ¬transport.Readable)
    (hr : transport.playhead.running = true) (listener : Option Listener) :
    ∃ event position fault, (event = .engineRead ∨ event = .clockRead) ∧
      transport.runFrame listener =
        ({ transport with playhead.frame := none, playhead.position := position }.log event).log
          (.escape fault) := by
  obtain ⟨event, hk, hok, -⟩ := runFrame_read hr listener
  simp only [Readable, not_forall] at h
  obtain ⟨position, hp, hf⟩ := h
  obtain ⟨fault, hc⟩ :=
    columnAt_of_no_floor transport.playhead.stepCount (Option.not_isSome_iff_eq_none.mp hf)
  exact ⟨event, position, fault, hk, (hok position hp).trans (moveTo_of_error listener hc)⟩

theorem next_scheduleFrame (hr : transport.scheduleFrame.playhead.running = true) :
    ∃ next ∈ transport.scheduleFrame.agenda.waiting .frame,
      transport.scheduleFrame.playhead.frame = some next.id ∧
        next.due = transport.agenda.now + transport.playhead.frameInterval := by
  rw [running_scheduleFrame] at hr
  obtain ⟨ha, hf, -⟩ := scheduleFrame_of_running hr
  let due := transport.agenda.now + transport.playhead.frameInterval
  refine ⟨⟨transport.agenda.nextId, due, .frame⟩, ?_, hf, rfl⟩
  rw [ha, Agenda.scheduleIn, Agenda.waiting_scheduleAt]
  exact List.mem_append_right _ (List.mem_singleton_self _)

theorem escaped_runFrame (h : transport.Readable) (listener : Option Listener) :
    (transport.runFrame listener).escaped = transport.escaped := by
  cases hr : transport.playhead.running with
  | true =>
    obtain ⟨mid, hm, hends⟩ := h.goes_on hr listener
    rw [hends]
    exact (kept_scheduleFrame mid).escaped.trans hm.escaped
  | false =>
    rw [runFrame, if_neg (by simp [hr])]
    rfl

theorem Readable.next_runFrame (h : transport.Readable) (hr : transport.playhead.running = true)
    (listener : Option Listener) (hrun : (transport.runFrame listener).playhead.running = true) :
    ∃ next ∈ (transport.runFrame listener).agenda.waiting .frame,
      (transport.runFrame listener).playhead.frame = some next.id ∧
        next.due = transport.agenda.now + transport.playhead.frameInterval := by
  obtain ⟨mid, hm, hends⟩ := h.goes_on hr listener
  rw [hends] at hrun ⊢
  obtain ⟨next, hn, hf, hd⟩ := next_scheduleFrame hrun
  rw [hm.now, hm.frameInterval] at hd
  exact ⟨next, hn, hf, hd⟩

/-- With an engine that is at no number, at an infinity or too far on, a frame goes on only if it
cannot tell its position. -/
theorem readable_iff_error {cycles : Float} (he : transport.engine = some (.ok cycles))
    (hc : (Binary64.ofFloat (cycles * Float.ofNat stepsPerCycle)).floor? = none) :
    transport.Readable ↔ ∃ fault, transport.readPosition.2 = .error fault := by
  have hp : transport.readPosition.2 = cyclePosition cycles transport.playhead.stepCount := by
    rw [readPosition, he]
  constructor
  · intro h
    cases hx : transport.readPosition.2 with
    | error fault => exact ⟨fault, rfl⟩
    | ok position =>
      have hf := h position hx
      rw [cyclePosition_of_no_floor (hp.symm.trans hx) hc] at hf
      exact absurd hf Bool.false_ne_true
  · rintro ⟨fault, hx⟩ position ho
    rw [hx] at ho
    contradiction

/-- The next frame is set and nothing escapes just where the position of a frame, if it is told,
falls in a column. Otherwise the playhead runs on without a frame to come. So it is with an engine
that is at no number or at an infinity, or so far on that its steps are beyond the doubles. -/
theorem goes_on_iff_readable {timer : Timer} (hj : timer.job = .frame)
    (hr : transport.playhead.running = true) (listener : Option Listener) :
    let frame := transport.reach timer
    let after := transport.fire listener timer
    (frame.Readable → after.escaped = transport.escaped ∧
      (after.playhead.running = true → ∃ next ∈ after.agenda.waiting .frame,
        after.playhead.frame = some next.id ∧
          next.due = frame.agenda.now + transport.playhead.frameInterval)) ∧
    (¬frame.Readable → (∃ fault, after.escaped = fault :: transport.escaped) ∧
      after.playhead.running = true ∧ after.playhead.frame = none ∧
        after.agenda.waiting .frame = frame.agenda.waiting .frame) ∧
    ∀ cycles, transport.engine = some (.ok cycles) →
      (Binary64.ofFloat (cycles * Float.ofNat stepsPerCycle)).floor? = none →
        (frame.Readable ↔ ∃ fault, frame.readPosition.2 = .error fault) := by
  intro frame after
  have hafter : after = frame.runFrame listener := fire_frame listener hj
  refine ⟨fun h => ?_, fun h => ?_, fun cycles => @readable_iff_error frame cycles⟩
  · rw [hafter]
    exact ⟨escaped_runFrame h listener, h.next_runFrame hr listener⟩
  · obtain ⟨event, position, fault, hk, hends⟩ := breaks_off_of_not_readable h hr listener
    rw [hafter, hends]
    refine ⟨⟨fault, ?_⟩, hr, rfl, rfl⟩
    rcases hk with rfl | rfl <;> rfl

/-- The first frame cannot tell where it is and goes on to the second, which is too far on. -/
theorem goes_on_iff_readable_overflow :
    let first : Transport := { engine := some (.error "offline") }
    let missed := first.begin.fire none ⟨1, 0.0, .frame⟩
    let far : Transport := { missed with engine := some (.ok (Float.ofBits 0x7fefffffffffffff)) }
    let after := far.fire none ⟨2, 1.0 / 60.0, .frame⟩
    missed.escaped = [] ∧ (∃ next ∈ missed.agenda.waiting .frame,
        missed.playhead.frame = some next.id ∧ next.due = 1.0 / 60.0) ∧
      ¬(far.reach ⟨2, 1.0 / 60.0, .frame⟩).Readable ∧
      (∃ fault, after.escaped = [fault]) ∧ after.playhead.running = true ∧
      after.playhead.frame = none ∧ after.agenda.waiting .frame = [] := by
  intro first missed far after
  have hread : (first.begin.reach ⟨1, 0.0, .frame⟩).Readable := by decide
  have hn : ¬(far.reach ⟨2, 1.0 / 60.0, .frame⟩).Readable := by decide
  obtain ⟨hgo, -, -⟩ := @goes_on_iff_readable first.begin ⟨1, 0.0, .frame⟩ rfl (by decide) none
  obtain ⟨-, hbreak, -⟩ := @goes_on_iff_readable far ⟨2, 1.0 / 60.0, .frame⟩ rfl (by decide) none
  obtain ⟨he, hnext⟩ := hgo hread
  obtain ⟨next, hm, hf, hd⟩ := hnext (by decide)
  obtain ⟨hfault, hrun, hframe, hwait⟩ := hbreak hn
  exact ⟨he, ⟨next, hm, hf, hd.trans (by decide)⟩, hn, hfault, hrun, hframe,
    hwait.trans (by decide)⟩

/-- An engine at an infinity takes the playhead down: it runs, and no frame is to come. -/
theorem no_frame_to_come :
    let first : Transport := { engine := some (.ok (1.0 / 0.0)) }
    let after := first.begin.fire none ⟨1, 0.0, .frame⟩
    Reached (fun _ _ => True) after ∧ first.begin.playhead.running = true ∧
      first.begin.agenda.waiting .frame = [⟨1, 0.0, .frame⟩] ∧
      after.playhead.running = true ∧ after.agenda.waiting .frame = [] ∧
      after.escaped = [.notANumber] := by
  intro first after
  have hmade : make 16 120.0 (1.0 / 60.0) (some (.ok (1.0 / 0.0))) 0.0 = .ok first := by rfl
  have hm : ⟨1, 0.0, .frame⟩ ∈ first.begin.agenda.timers := by decide
  have h : Reached (fun _ _ => True) after :=
    ((Reached.make hmade).step ⟨.start true, trivial, rfl⟩).step
      ⟨.fire none ⟨1, 0.0, .frame⟩, ⟨hm, trivial⟩, rfl⟩
  exact ⟨h, by decide, by decide, by decide, by decide, by decide⟩

end Transport

end StepSequencer
