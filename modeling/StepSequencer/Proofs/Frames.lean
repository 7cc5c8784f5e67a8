import StepSequencer.Playback.Run
import StepSequencer.Proofs.Agenda

/-! The frames of a transport that wait on its agenda: the one that the playhead holds, and strays
that it has lost hold of. -/

namespace StepSequencer

theorem wrapped_zero (steps : Float) : wrapped steps 0 = .error .divisionByZero := rfl

theorem columnAt_of_floor {position : Float} {stepCount step : Int} (hs : stepCount ≠ 0)
    (hf : (Binary64.ofFloat position).floor? = some step) :
    columnAt position stepCount = .ok (step.fmod stepCount) := by
  rw [columnAt]
  cases hb : Binary64.ofFloat position with
  | nan => simp [hb, Binary64.floor?] at hf
  | infinite negative => simp [hb, Binary64.floor?] at hf
  | finite negative mantissa exponent =>
    rw [hb] at hf
    simp [hf, hs]

theorem columnAt_of_no_floor {position : Float} (stepCount : Int)
    (hf : (Binary64.ofFloat position).floor? = none) :
    ∃ fault, columnAt position stepCount = .error fault := by
  rw [columnAt]
  cases hb : Binary64.ofFloat position with
  | nan => exact ⟨_, rfl⟩
  | infinite negative => exact ⟨_, rfl⟩
  | finite negative mantissa exponent =>
    rw [hb] at hf
    exact ⟨_, by simp only [hf]; rfl⟩

namespace Transport

/-- What a transport keeps in all runs: timers are well numbered, the frame that the playhead holds
waits on the agenda, and a stopped playhead holds none. -/
structure Sound (transport : Transport) : Prop where
  wellNumbered : transport.agenda.WellNumbered
  frame_waiting : ∀ id, transport.playhead.frame = some id →
    ∃ timer ∈ transport.agenda.waiting .frame, timer.id = id
  frame_of_stopped : transport.playhead.running = false → transport.playhead.frame = none

/-- The frames that wait although the playhead does not hold them. -/
def strays (transport : Transport) : List Timer :=
  (transport.agenda.waiting .frame).filter fun timer => transport.playhead.frame != some timer.id

/-- A running playhead holds the next frame. -/
def Held (transport : Transport) : Prop :=
  transport.playhead.running = true → transport.playhead.frame.isSome = true

variable {transport after : Transport}

theorem Sound.of_frame_none (h : transport.agenda.WellNumbered)
    (hf : transport.playhead.frame = none) : transport.Sound :=
  ⟨h, fun _ hi => absurd (hf.symm.trans hi) nofun, fun _ => hf⟩

theorem Sound.congr (h : transport.Sound) (ha : after.agenda = transport.agenda)
    (hp : after.playhead = transport.playhead) : after.Sound :=
  ⟨ha ▸ h.wellNumbered, ha ▸ hp ▸ h.frame_waiting, hp ▸ h.frame_of_stopped⟩

theorem strays_congr (ha : after.agenda = transport.agenda)
    (hf : after.playhead.frame = transport.playhead.frame) : after.strays = transport.strays := by
  rw [strays, strays, ha, hf]

theorem strays_of_frame_none (h : transport.playhead.frame = none) :
    transport.strays = transport.agenda.waiting .frame := by
  simp [strays, h]

theorem strays_of_frame {id : Nat} (h : transport.playhead.frame = some id) :
    transport.strays = (transport.agenda.remove id).waiting .frame := by
  rw [strays, Agenda.waiting_remove, h]
  refine List.filter_congr fun timer _ => ?_
  simp [bne, eq_comm]

theorem Sound.length_waiting (h : transport.Sound) :
    (transport.agenda.waiting .frame).length =
      transport.strays.length + if transport.playhead.frame.isSome then 1 else 0 := by
  cases hf : transport.playhead.frame with
  | none => rw [strays_of_frame_none hf]; rfl
  | some id =>
    obtain ⟨timer, hm, rfl⟩ := h.frame_waiting id hf
    rw [strays_of_frame hf]
    exact (h.wellNumbered.length_waiting_remove hm).symm

/-- A new frame that the playhead holds makes strays of all that waited before. -/
theorem strays_of_scheduled (h : transport.agenda.WellNumbered) {due : Float}
    (ha : after.agenda = transport.agenda.scheduleAt due .frame)
    (hf : after.playhead.frame = some transport.agenda.nextId) :
    after.strays = transport.agenda.waiting .frame := by
  have hk : ∀ timer ∈ transport.agenda.waiting .frame, timer.id ≠ transport.agenda.nextId :=
    fun timer hm => Nat.ne_of_lt (h.id_lt timer (Agenda.mem_waiting.mp hm).1)
  rw [strays_of_frame hf, Agenda.waiting_remove, ha, Agenda.waiting_scheduleAt, List.filter_append]
  simpa [List.filter_eq_self] using hk

theorem Sound.of_scheduled (h : transport.agenda.WellNumbered) {due : Float}
    (ha : after.agenda = transport.agenda.scheduleAt due .frame)
    (hf : after.playhead.frame = some transport.agenda.nextId)
    (hr : after.playhead.running = true) : after.Sound where
  wellNumbered := ha ▸ h.scheduleAt due .frame
  frame_waiting id hi := by
    rw [ha, Agenda.waiting_scheduleAt]
    exact ⟨⟨transport.agenda.nextId, due, .frame⟩, by simp,
      Option.some.inj (hf.symm.trans hi)⟩
  frame_of_stopped hs := by simp [hr] at hs

/-! Starting, stopping and going on. -/

theorem begin_of_running (h : transport.playhead.running = true) : transport.begin = transport := by
  rw [begin, if_pos h]

theorem begin_of_stopped (h : transport.playhead.running = false) :
    transport.begin.agenda = transport.agenda.scheduleNow .frame ∧
      transport.begin.playhead.frame = some transport.agenda.nextId ∧
      transport.begin.playhead.running = true := by
  simp [begin, h, log]

theorem Sound.begin (h : transport.Sound) :
    transport.begin.Sound ∧ transport.begin.strays = transport.strays := by
  cases hr : transport.playhead.running with
  | true => rw [begin_of_running hr]; exact ⟨h, rfl⟩
  | false =>
    obtain ⟨ha, hf, hs⟩ := begin_of_stopped hr
    refine ⟨.of_scheduled h.wellNumbered ha hf hs, ?_⟩
    rw [strays_of_scheduled h.wellNumbered ha hf, strays_of_frame_none (h.frame_of_stopped hr)]

theorem waiting_stop (transport : Transport) :
    transport.stop.agenda.waiting .frame = transport.strays := by
  cases hf : transport.playhead.frame with
  | none => rw [strays_of_frame_none hf, stop, hf]
  | some id => rw [strays_of_frame hf, stop, hf]

theorem strays_stop (transport : Transport) : transport.stop.strays = transport.strays := by
  rw [strays_of_frame_none rfl, waiting_stop]

theorem Sound.stop (h : transport.Sound) : transport.stop.Sound where
  wellNumbered := by
    rw [Transport.stop]
    dsimp only
    split
    · exact h.wellNumbered.remove _
    · exact h.wellNumbered
  frame_waiting _ hi := by simp [Transport.stop] at hi
  frame_of_stopped _ := rfl

theorem Sound.obey (h : transport.Sound) (command : Command) :
    (transport.obey command).Sound ∧ (transport.obey command).strays = transport.strays := by
  cases command with
  | stop => exact ⟨h.stop, strays_stop transport⟩
  | start => exact h.begin

theorem Sound.foldl_obey (h : transport.Sound) (commands : List Command) :
    (commands.foldl Transport.obey transport).Sound ∧
      (commands.foldl Transport.obey transport).strays = transport.strays := by
  induction commands generalizing transport with
  | nil => exact ⟨h, rfl⟩
  | cons command more ih =>
    have ho := h.obey command
    have hm := ih ho.1
    exact ⟨hm.1, hm.2.trans ho.2⟩

theorem scheduleFrame_of_running (h : transport.playhead.running = true) :
    transport.scheduleFrame.agenda =
        transport.agenda.scheduleIn transport.playhead.frameInterval .frame ∧
      transport.scheduleFrame.playhead.frame = some transport.agenda.nextId ∧
      transport.scheduleFrame.playhead.running = true := by
  simp [scheduleFrame, h]

theorem scheduleFrame_of_stopped (h : transport.playhead.running = false) :
    transport.scheduleFrame = transport := by
  simp [scheduleFrame, h]

theorem Sound.scheduleFrame (h : transport.Sound) : transport.scheduleFrame.Sound := by
  cases hr : transport.playhead.running with
  | true =>
    obtain ⟨ha, hf, hs⟩ := scheduleFrame_of_running hr
    exact .of_scheduled h.wellNumbered ha hf hs
  | false => rwa [scheduleFrame_of_stopped hr]

theorem Sound.strays_scheduleFrame (h : transport.Sound) :
    transport.scheduleFrame.strays = transport.agenda.waiting .frame := by
  cases hr : transport.playhead.running with
  | true =>
    obtain ⟨ha, hf, _⟩ := scheduleFrame_of_running hr
    exact strays_of_scheduled h.wellNumbered ha hf
  | false => rw [scheduleFrame_of_stopped hr, strays_of_frame_none (h.frame_of_stopped hr)]

theorem running_scheduleFrame (transport : Transport) :
    transport.scheduleFrame.playhead.running = transport.playhead.running := by
  rw [scheduleFrame]
  split <;> rfl

/-! One frame. -/

theorem report_some (respond : Listener) (column : Int) :
    ∃ obeyed, obeyed = (respond transport.reported column).commands.foldl Transport.obey
        (transport.log (.column column)) ∧
      (transport.report (some respond) column).agenda = obeyed.agenda ∧
      (transport.report (some respond) column).playhead = obeyed.playhead ∧
      (transport.report (some respond) column).announced = obeyed.announced := by
  refine ⟨_, rfl, ?_⟩
  rw [report]
  split <;> exact ⟨rfl, rfl, rfl⟩

/-- A readable position that can be told falls in a column: there are none in no steps. -/
theorem Readable.column {position : Float} (h : transport.Readable)
    (hp : transport.readPosition.2 = .ok position) :
    ∃ column, columnAt position transport.playhead.stepCount = .ok column := by
  obtain ⟨step, hs⟩ := Option.isSome_iff_exists.mp (h position hp)
  refine ⟨_, columnAt_of_floor (fun hz => ?_) hs⟩
  rw [readPosition] at hp
  split at hp
  next => simp [cyclePosition, hz, wrapped_zero] at hp
  next => simp at hp
  next =>
    simp only [tempoPosition, hz, wrapped_zero] at hp
    split at hp
    next => simp at hp
    next => split at hp <;> simp at hp

theorem readPosition_fst (transport : Transport) :
    ∃ event, transport.readPosition.1 = transport.log event ∧
      (event = .engineRead ∨ event = .clockRead) := by
  rw [readPosition]
  split
  · exact ⟨_, rfl, .inl rfl⟩
  · exact ⟨_, rfl, .inl rfl⟩
  · exact ⟨_, rfl, .inr rfl⟩

theorem readPosition_idle (transport : Transport) (frame : Option Nat) :
    { transport with playhead.frame := frame : Transport }.readPosition.2 =
      transport.readPosition.2 := by
  simp only [readPosition]
  split <;> rfl

theorem moveTo_of_error {position : Float} {fault : Fault} (listener : Option Listener)
    (h : columnAt position transport.playhead.stepCount = .error fault) :
    transport.moveTo listener position =
      { transport with playhead.position := position : Transport }.log (.escape fault) := by
  rw [moveTo, Playhead.column, h]

theorem moveTo_of_same {position : Float} {column : Int} (listener : Option Listener)
    (h : columnAt position transport.playhead.stepCount = .ok column)
    (hl : transport.playhead.lastColumn = some column) :
    transport.moveTo listener position =
      { transport with playhead.position := position : Transport }.scheduleFrame := by
  rw [moveTo, Playhead.column, h]
  exact if_pos hl

theorem moveTo_of_new {position : Float} {column : Int} (listener : Option Listener)
    (h : columnAt position transport.playhead.stepCount = .ok column)
    (hl : transport.playhead.lastColumn ≠ some column) :
    transport.moveTo listener position =
      ({ transport with
          playhead.position := position
          playhead.lastColumn := some column : Transport }.report listener column).scheduleFrame
      := by
  rw [moveTo, Playhead.column, h]
  exact if_neg hl

/-- The transport in the course of a frame: it holds no frame, and its agenda is as it was. -/
structure MidFrame (before mid : Transport) : Prop where
  agenda : mid.agenda = before.agenda
  frame : mid.playhead.frame = none
  running : mid.playhead.running = before.playhead.running
  reported : mid.reported = before.reported
  announced : mid.announced = before.announced

section MidFrame

variable {mid : Transport} (hm : MidFrame transport mid)

include hm

theorem MidFrame.sound (h : transport.agenda.WellNumbered) : mid.Sound :=
  .of_frame_none (hm.agenda ▸ h) hm.frame

theorem MidFrame.strays : mid.strays = transport.agenda.waiting .frame := by
  rw [strays_of_frame_none hm.frame, hm.agenda]

theorem MidFrame.log_notice (notice : Notice) : MidFrame transport (mid.log (.notice notice)) :=
  ⟨hm.agenda, hm.frame, hm.running, hm.reported, hm.announced⟩

theorem MidFrame.move (position : Float) (lastColumn : Option Int) :
    MidFrame transport
      { mid with playhead.position := position, playhead.lastColumn := lastColumn } :=
  ⟨hm.agenda, hm.frame, hm.running, hm.reported, hm.announced⟩

theorem MidFrame.escape (position : Float) (fault : Fault) :
    MidFrame transport
      ({ mid with playhead.position := position : Transport }.log (.escape fault)) :=
  ⟨hm.agenda, hm.frame, hm.running, hm.reported, hm.announced⟩

end MidFrame

/-- How a frame ends: it goes on to the next without a report, or reports a column and goes on, or
breaks off. -/
inductive FrameEnds (transport : Transport) (listener : Option Listener) : Prop
  | unreported {mid : Transport} (middle : MidFrame transport mid)
      (reason : transport.playhead.running = false ∨ listener = none ∨ transport.columnDue? = none)
      (ends : transport.runFrame listener = mid.scheduleFrame)
  | reported {mid : Transport} {respond : Listener} {column : Int}
      (middle : MidFrame transport mid) (answers : listener = some respond)
      (running : transport.playhead.running = true) (due : transport.columnDue? = some column)
      (ends : transport.runFrame listener = (mid.report listener column).scheduleFrame)
  | broken {mid : Transport} (middle : MidFrame transport mid) (unreadable : ¬transport.Readable)
      (due : transport.columnDue? = none) (ends : transport.runFrame listener = mid)

/-- A frame of a running playhead is spent on where the position now is, if it can be told. -/
theorem runFrame_read (h : transport.playhead.running = true) (listener : Option Listener) :
    ∃ event, (event = .engineRead ∨ event = .clockRead) ∧
      let read := { transport with playhead.frame := none : Transport }.log event
      (∀ position, transport.readPosition.2 = .ok position →
        transport.runFrame listener = read.moveTo listener position) ∧
      ∀ fault, transport.readPosition.2 = .error fault →
        transport.runFrame listener = (read.log (.notice .positionUnread)).scheduleFrame := by
  let idle := { transport with playhead.frame := none }
  obtain ⟨event, he, hk⟩ := readPosition_fst idle
  have hread : idle.readPosition = (idle.log event, transport.readPosition.2) :=
    Prod.ext he (readPosition_idle transport none)
  refine ⟨event, hk, fun position hp => ?_, fun fault hp => ?_⟩
  all_goals
    rw [hp] at hread
    rw [runFrame, if_pos h, hread]

theorem runFrame_of_running (h : transport.playhead.running = true) (listener : Option Listener) :
    ∃ read : Transport, MidFrame transport read ∧
      read.playhead = { transport.playhead with frame := none } ∧
      (∀ position, transport.readPosition.2 = .ok position →
        transport.runFrame listener = read.moveTo listener position) ∧
      ∀ fault, transport.readPosition.2 = .error fault →
        transport.runFrame listener = (read.log (.notice .positionUnread)).scheduleFrame := by
  obtain ⟨event, hk, hends⟩ := runFrame_read h listener
  refine ⟨_, ?_, rfl, hends⟩
  rcases hk with rfl | rfl <;> exact ⟨rfl, rfl, rfl, rfl, rfl⟩

theorem columnDue?_of_column {position : Float} {column : Int}
    (hp : transport.readPosition.2 = .ok position)
    (hc : columnAt position transport.playhead.stepCount = .ok column) :
    transport.columnDue? =
      if transport.playhead.lastColumn = some column then none else some column := by
  rw [columnDue?, hp]
  simp only [hc]

theorem frameEnds (transport : Transport) (listener : Option Listener) :
    FrameEnds transport listener := by
  cases hr : transport.playhead.running with
  | false =>
    let idle := { transport with playhead.frame := none }
    have hidle : MidFrame transport idle := ⟨rfl, rfl, rfl, rfl, rfl⟩
    refine .unreported hidle (.inl hr) ?_
    rw [runFrame, @scheduleFrame_of_stopped idle hr]
    exact if_neg (by simp [hr])
  | true =>
    obtain ⟨read, hread, hplay, hok, herror⟩ := runFrame_of_running hr listener
    cases hp : transport.readPosition.2 with
    | error fault =>
      have hn : transport.columnDue? = none := by rw [columnDue?, hp]
      exact .unreported (hread.log_notice _) (.inr (.inr hn)) (herror fault hp)
    | ok position =>
      have hmove := hok position hp
      have hsteps : read.playhead.stepCount = transport.playhead.stepCount := by rw [hplay]
      have hlast : read.playhead.lastColumn = transport.playhead.lastColumn := by rw [hplay]
      cases hc : columnAt position transport.playhead.stepCount with
      | error fault =>
        refine .broken (hread.escape position fault) (fun h => ?_) ?_
          (hmove.trans (moveTo_of_error listener (hsteps ▸ hc)))
        · obtain ⟨column, hx⟩ := h.column hp
          simp [hc] at hx
        · rw [columnDue?, hp]
          simp only [hc]
      | ok column =>
        have hd := columnDue?_of_column hp hc
        by_cases hl : transport.playhead.lastColumn = some column
        · exact .unreported (hread.move position _) (.inr (.inr (hd.trans (if_pos hl))))
            (hmove.trans (moveTo_of_same listener (hsteps ▸ hc) (hlast.trans hl)))
        · have hnew := hread.move position (some column)
          have hends := hmove.trans (moveTo_of_new listener (hsteps ▸ hc) (hlast ▸ hl))
          cases listener with
          | none => exact .unreported hnew (.inr (.inl rfl)) hends
          | some respond => exact .reported hnew rfl hr (hd.trans (if_neg hl)) hends

theorem Sound.report (h : transport.Sound) (listener : Option Listener) (column : Int) :
    (transport.report listener column).Sound ∧
      (transport.report listener column).strays = transport.strays := by
  cases listener with
  | none => exact ⟨h, rfl⟩
  | some respond =>
    obtain ⟨obeyed, rfl, ha, hp, -⟩ := @report_some transport respond column
    have hl : (transport.log (.column column)).Sound := h.congr rfl rfl
    have ho := hl.foldl_obey (respond transport.reported column).commands
    exact ⟨ho.1.congr ha hp, (strays_congr ha (congrArg _ hp)).trans ho.2⟩

theorem Sound.runFrame (h : transport.agenda.WellNumbered) (listener : Option Listener) :
    (transport.runFrame listener).Sound := by
  cases frameEnds transport listener with
  | unreported middle _ ends => exact ends ▸ (middle.sound h).scheduleFrame
  | @reported _ _ column middle _ _ _ ends =>
    exact ends ▸ ((middle.sound h).report listener column).1.scheduleFrame
  | broken middle _ _ ends => exact ends ▸ middle.sound h

/-- What waits when a frame fires is stray after it, and perhaps more. -/
theorem length_waiting_le_strays_runFrame (h : transport.agenda.WellNumbered)
    (listener : Option Listener) :
    (transport.agenda.waiting .frame).length ≤ (transport.runFrame listener).strays.length := by
  cases frameEnds transport listener with
  | unreported middle _ ends =>
    refine Nat.le_of_eq ?_
    rw [ends, (middle.sound h).strays_scheduleFrame, middle.agenda]
  | @reported _ _ column middle _ _ _ ends =>
    obtain ⟨hr, hk⟩ := (middle.sound h).report listener column
    rw [ends, hr.strays_scheduleFrame, hr.length_waiting, hk, middle.strays]
    exact Nat.le_add_right _ _
  | broken middle _ _ ends =>
    refine Nat.le_of_eq ?_
    rw [ends, middle.strays]

theorem held_scheduleFrame (transport : Transport) : transport.scheduleFrame.Held := by
  intro hr
  rw [running_scheduleFrame] at hr
  rw [(scheduleFrame_of_running hr).2.1]
  rfl

theorem held_runFrame (h : transport.Readable) (listener : Option Listener) :
    (transport.runFrame listener).Held := by
  cases frameEnds transport listener with
  | unreported _ _ ends => exact ends ▸ held_scheduleFrame _
  | reported _ _ _ _ ends => exact ends ▸ held_scheduleFrame _
  | broken _ unreadable _ _ => exact absurd h unreadable

/-! Operations in any order. -/

theorem fire_frame {timer : Timer} (listener : Option Listener) (h : timer.job = .frame) :
    transport.fire listener timer = (transport.reach timer).runFrame listener := by
  rw [fire, h, reach]

theorem fire_emission {timer : Timer} (listener : Option Listener) (h : timer.job = .emission) :
    transport.fire listener timer = transport.reach timer := by
  rw [fire, h, reach]

theorem waiting_reach (transport : Transport) (timer : Timer) (job : Job) :
    (transport.reach timer).agenda.waiting job = (transport.agenda.remove timer.id).waiting job :=
  rfl

theorem waiting_reach_of_ne {timer : Timer} {job : Job} (h : transport.agenda.WellNumbered)
    (hm : timer ∈ transport.agenda.timers) (hj : timer.job ≠ job) :
    (transport.reach timer).agenda.waiting job = transport.agenda.waiting job := by
  rw [waiting_reach, h.waiting_remove_of_ne hm hj]

theorem Sound.fire (h : transport.Sound) (listener : Option Listener) {timer : Timer}
    (hm : timer ∈ transport.agenda.timers) : (transport.fire listener timer).Sound := by
  have hw : (transport.reach timer).agenda.WellNumbered := h.wellNumbered.reach timer
  cases hj : timer.job with
  | frame => exact fire_frame listener hj ▸ Sound.runFrame hw listener
  | emission =>
    rw [fire_emission listener hj]
    refine ⟨hw, fun id hi => ?_, h.frame_of_stopped⟩
    rw [waiting_reach_of_ne h.wellNumbered hm (by simp [hj])]
    exact h.frame_waiting id hi

/-- A timer that fires while the playhead is at rest only leaves the agenda. -/
theorem Sound.fire_of_stopped (h : transport.Sound) (hr : transport.playhead.running = false)
    (listener : Option Listener) (timer : Timer) :
    transport.fire listener timer = transport.reach timer := by
  cases hj : timer.job with
  | frame =>
    have hf : (transport.reach timer).playhead.frame = none := h.frame_of_stopped hr
    have hs : ¬(transport.reach timer).playhead.running = true := by simp [reach, hr]
    rw [fire_frame listener hj, Transport.runFrame, if_neg hs, ← hf]
  | emission => exact fire_emission listener hj

theorem held_begin (transport : Transport) (h : transport.Held) : transport.begin.Held := by
  cases hr : transport.playhead.running with
  | true => rwa [begin_of_running hr]
  | false =>
    intro _
    rw [(begin_of_stopped hr).2.1]
    rfl

theorem run_startM (transport : Transport) (looped : Bool) :
    (startM looped).run.run transport =
      if transport.playhead.running || looped then (.ok (), transport.begin)
      else (.error .noLoop, transport) := by
  by_cases hs : (transport.playhead.running || looped) = true
  · rw [if_pos hs]
    exact congrFun (if_pos hs) transport
  · rw [if_neg hs]
    exact congrFun (if_neg hs) transport

theorem perform_start (transport : Transport) (looped : Bool) :
    transport.perform (.start looped) =
      if transport.playhead.running || looped then (transport.begin, none)
      else (transport, some .noLoop) := by
  rw [perform, run_startM]
  by_cases hs : (transport.playhead.running || looped) = true
  · rw [if_pos hs, if_pos hs]
  · rw [if_neg hs, if_neg hs]

theorem Sound.perform_start (h : transport.Sound) (looped : Bool) :
    (transport.perform (.start looped)).1.Sound ∧
      (transport.perform (.start looped)).1.strays = transport.strays ∧
      (transport.Held → (transport.perform (.start looped)).1.Held) := by
  rw [Transport.perform_start]
  split
  · exact ⟨h.begin.1, h.begin.2, held_begin transport⟩
  · exact ⟨h, rfl, id⟩

/-- Only where a timer fires can frames go astray. -/
theorem Sound.perform (h : transport.Sound) (operation : Operation)
    (hn : ∀ listener timer, operation ≠ .fire listener timer) :
    (transport.perform operation).1.Sound ∧
      (transport.perform operation).1.strays = transport.strays ∧
      (transport.Held → (transport.perform operation).1.Held) := by
  have hstop : transport.stop.Sound ∧ transport.stop.strays = transport.strays ∧
      (transport.Held → transport.stop.Held) :=
    ⟨h.stop, strays_stop transport, fun _ hr => absurd hr nofun⟩
  cases operation with
  | start looped => exact h.perform_start looped
  | enter looped => exact h.perform_start looped
  | stop => exact hstop
  | exit => exact hstop
  | setStepCount stepCount => exact ⟨⟨h.1, h.2, h.3⟩, rfl, id⟩
  | setTempo tempo => exact ⟨⟨h.1, h.2, h.3⟩, rfl, id⟩
  | setEngine engine => exact ⟨⟨h.1, h.2, h.3⟩, rfl, id⟩
  | wait now => exact ⟨⟨⟨h.1.nodup, h.1.id_lt⟩, h.2, h.3⟩, rfl, id⟩
  | fire listener timer => exact absurd rfl (hn listener timer)

/-- It has to be made with frames that take time. It is at rest then. -/
theorem make_eq_ok {stepCount : Int} {tempo frameInterval : Float}
    {engine : Option (Except String Float)} {now : Float}
    (made : make stepCount tempo frameInterval engine now = .ok transport) :
    transport = { playhead := { stepCount, tempo, frameInterval }, agenda := { now }, engine } := by
  rw [make, Playhead.check] at made
  split at made
  next => simp [Bind.bind, Except.bind] at made
  next => exact (Except.ok.inj made).symm

theorem Sound.make {stepCount : Int} {tempo frameInterval : Float}
    {engine : Option (Except String Float)} {now : Float}
    (made : make stepCount tempo frameInterval engine now = .ok transport) :
    transport.Sound ∧ transport.strays = [] ∧ transport.playhead.running = false := by
  obtain rfl := make_eq_ok made
  exact ⟨.of_frame_none ⟨List.nodup_nil, nofun⟩ rfl, rfl, rfl⟩

theorem Sound.step {Admits : Transport → Option Listener → Prop} (h : transport.Sound)
    (hs : Step Admits transport after) : after.Sound := by
  obtain ⟨operation, hp, rfl⟩ := hs
  by_cases hf : ∃ listener timer, operation = .fire listener timer
  · obtain ⟨listener, timer, rfl⟩ := hf
    exact h.fire listener hp.1
  · exact (h.perform operation fun listener timer he => hf ⟨listener, timer, he⟩).1

theorem Reached.sound {Admits : Transport → Option Listener → Prop}
    (h : Reached Admits transport) : transport.Sound := by
  induction h with
  | make made => exact (Sound.make made).1
  | step _ hs ih => exact ih.step hs

theorem Reached.runUntil {Admits : Transport → Option Listener → Prop}
    (ha : ∀ transport listener, Admits transport listener) (h : Reached Admits transport)
    (listener : Option Listener) (time : Float) (limit : Nat) :
    Reached Admits (Agenda.runUntil agenda (·.fire listener ·) time limit transport) := by
  induction limit generalizing transport with
  | zero => exact h
  | succ limit ih =>
    rw [Agenda.runUntil]
    split
    next timer hn =>
      exact ih (h.step ⟨.fire listener timer, ⟨Agenda.mem_of_next? hn, ha _ _⟩, rfl⟩)
    next => exact h

/-- To let time pass is to fire timers and to move the clock. -/
theorem Reached.advance {Admits : Transport → Option Listener → Prop}
    (ha : ∀ transport listener, Admits transport listener) (h : Reached Admits transport)
    (listener : Option Listener) (limit : Nat) (seconds : Float) :
    Reached Admits (transport.advance listener limit seconds) :=
  (h.runUntil ha listener (transport.agenda.now + seconds) limit).step
    ⟨.wait (transport.agenda.now + seconds), trivial, rfl⟩

end Transport

end StepSequencer
