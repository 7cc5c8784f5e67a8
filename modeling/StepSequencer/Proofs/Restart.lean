import StepSequencer.Proofs.Frames
import Mathlib.Logic.Relation

/-! A listener that stops and starts the playhead within a frame sets off a second chain of frames,
which nothing holds. -/

namespace StepSequencer

/-- The commands stop the playhead and in the end start it again. -/
def Restarts (commands : List Command) : Prop :=
  ∃ before after, commands = before ++ .stop :: .start :: after ∧ .stop ∉ after

namespace Transport

variable {transport : Transport}

theorem foldl_obey_of_starts {commands : List Command} (h : .stop ∉ commands)
    (hr : transport.playhead.running = true) :
    commands.foldl Transport.obey transport = transport := by
  induction commands with
  | nil => rfl
  | cons command more ih =>
    obtain ⟨hc, hm⟩ := not_or.mp (mt List.mem_cons.mpr h)
    cases command with
    | stop => exact absurd rfl hc
    | start =>
      rw [List.foldl_cons, Transport.obey, begin_of_running hr]
      exact ih hm

theorem foldl_obey_of_restarts {commands : List Command} (h : Restarts commands) :
    (commands.foldl Transport.obey transport).playhead.running = true ∧
      (commands.foldl Transport.obey transport).playhead.frame.isSome = true := by
  obtain ⟨before, more, rfl, hm⟩ := h
  let stopped := (before.foldl Transport.obey transport).stop
  obtain ⟨-, hf, hr⟩ := @begin_of_stopped stopped rfl
  have he : (before ++ .stop :: .start :: more).foldl Transport.obey transport = stopped.begin := by
    rw [List.foldl_append]
    exact foldl_obey_of_starts hm hr
  rw [he, hf]
  exact ⟨hr, rfl⟩

/-- Both the frame of the restart and the next frame of the chain wait after the frame. -/
theorem strays_runFrame_of_restarts (h : transport.agenda.WellNumbered)
    (hr : transport.playhead.running = true) {respond : Listener} {column : Int}
    (hc : transport.columnDue? = some column)
    (hs : Restarts (respond transport.reported column).commands) :
    (transport.runFrame (some respond)).strays.length =
        (transport.agenda.waiting .frame).length + 1 ∧
      (transport.runFrame (some respond)).playhead.running = true ∧
      (transport.runFrame (some respond)).Held := by
  cases frameEnds transport (some respond) with
  | unreported _ reason _ => simp [hr, hc] at reason
  | broken _ _ due _ => simp [hc] at due
  | @reported mid _ _ middle answers _ due ends =>
    obtain rfl := Option.some.inj answers
    obtain rfl := Option.some.inj (hc.symm.trans due)
    obtain ⟨obeyed, rfl, -, hpo, -⟩ := @report_some mid respond column
    obtain ⟨hrun, hsome⟩ :=
      @foldl_obey_of_restarts (mid.log (.column column)) _ (middle.reported.symm ▸ hs)
    obtain ⟨hsound, hk⟩ := (middle.sound h).report (some respond) column
    rw [ends]
    -- What waits after the report is stray once the next frame is set, the restart's frame too.
    refine ⟨?_, ?_, held_scheduleFrame _⟩
    · rw [hsound.strays_scheduleFrame, hsound.length_waiting, hk, middle.strays, hpo, hsome]
      rfl
    · rw [running_scheduleFrame, hpo]
      exact hrun

/-- A step of a running playhead whose position falls in a column in each frame. -/
def Going (before after : Transport) : Prop :=
  before.playhead.running = true ∧ Step (fun reached _ => reached.Readable) before after

theorem Sound.going {after : Transport} (h : transport.Sound) (hh : transport.Held)
    (hg : Going transport after) :
    after.Sound ∧ after.Held ∧ transport.strays.length ≤ after.strays.length := by
  obtain ⟨hr, hs⟩ := hg
  refine ⟨h.step hs, ?_⟩
  obtain ⟨operation, hp, rfl⟩ := hs
  by_cases hf : ∃ listener timer, operation = .fire listener timer
  · obtain ⟨listener, timer, rfl⟩ := hf
    obtain ⟨hm, hread⟩ := hp
    rw [Transport.perform]
    cases hj : timer.job with
    | frame =>
      have hw : (transport.reach timer).agenda.WellNumbered := h.wellNumbered.reach timer
      have hl := h.wellNumbered.length_waiting_remove (Agenda.mem_waiting.mpr ⟨hm, hj⟩)
      rw [h.length_waiting, hh hr] at hl
      rw [fire_frame listener hj, ← Nat.succ.inj hl]
      exact ⟨held_runFrame hread listener, length_waiting_le_strays_runFrame hw listener⟩
    | emission =>
      rw [fire_emission listener hj]
      refine ⟨hh, ?_⟩
      rw [Transport.strays, Transport.strays, waiting_reach_of_ne h.wellNumbered hm (by simp [hj])]
      exact Nat.le_refl _
  · obtain ⟨-, hstrays, hheld⟩ :=
      h.perform operation fun listener timer he => hf ⟨listener, timer, he⟩
    exact ⟨hheld hh, hstrays ▸ Nat.le_refl _⟩

theorem strays_le_of_going {after : Transport} (h : transport.Sound) (hh : transport.Held)
    (hg : Relation.ReflTransGen Going transport after) :
    after.Sound ∧ after.Held ∧ transport.strays.length ≤ after.strays.length := by
  induction hg with
  | refl => exact ⟨h, hh, Nat.le_refl _⟩
  | tail _ hstep ih =>
    obtain ⟨hs, hh, hl⟩ := ih
    obtain ⟨hs, hh, hl'⟩ := hs.going hh hstep
    exact ⟨hs, hh, Nat.le_trans hl hl'⟩

/-- A frame in which the listener restarts the playhead leaves one more frame to come than there
were, so two at least. A stop takes only one of them off the agenda, whether it comes at once or
after the playhead has run on for a while. -/
theorem restart_leaves_stray (h : Reached (fun _ _ => True) transport) {timer : Timer}
    (hm : timer ∈ transport.agenda.waiting .frame) (hr : transport.playhead.running = true)
    {respond : Listener} {column : Int} (hc : (transport.reach timer).columnDue? = some column)
    (hs : Restarts (respond transport.reported column).commands) :
    let after := transport.fire (some respond) timer
    let frames := (transport.agenda.waiting .frame).length
    0 < frames ∧ after.playhead.running = true ∧
      (after.agenda.waiting .frame).length = frames + 1 ∧
      (after.stop.agenda.waiting .frame).length = frames ∧
      ∀ later, Relation.ReflTransGen Going after later →
        frames ≤ (later.stop.agenda.waiting .frame).length := by
  intro after frames
  obtain ⟨ht, hj⟩ := Agenda.mem_waiting.mp hm
  have hw : (transport.reach timer).agenda.WellNumbered := h.sound.wellNumbered.reach timer
  have hl : ((transport.reach timer).agenda.waiting .frame).length + 1 = frames :=
    h.sound.wellNumbered.length_waiting_remove hm
  have hsound : after.Sound := h.sound.fire _ ht
  obtain ⟨hstrays, hrun, hheld⟩ := @strays_runFrame_of_restarts (transport.reach timer) hw hr
    respond column hc hs
  rw [← fire_frame _ hj] at hstrays hrun hheld
  refine ⟨List.length_pos_of_mem hm, hrun, ?_, ?_, fun later hg => ?_⟩
  · rw [hsound.length_waiting, hheld hrun, hstrays, hl]
    rfl
  · rw [waiting_stop, hstrays, hl]
  · rw [waiting_stop, ← hl, ← hstrays]
    exact (strays_le_of_going hsound hheld hg).2.2

/-- The restart sets a frame, and the end of the frame that it happened in sets another. -/
theorem two_frames_to_come :
    let restart : Listener := fun _ column => if column = 4 then ⟨[.stop, .start], false⟩ else {}
    let first : Transport := { engine := some (.ok 0.25) }
    let after := first.begin.fire (some restart) ⟨1, 0.0, .frame⟩
    Reached (fun _ _ => True) after ∧
      (first.begin.agenda.waiting .frame).map Timer.id = [1] ∧
      (after.agenda.waiting .frame).map Timer.id = [2, 3] ∧ after.playhead.frame = some 3 ∧
      (after.stop.agenda.waiting .frame).map Timer.id = [2] := by
  intro restart first after
  have hmade : make 16 120.0 (1.0 / 60.0) (some (.ok 0.25)) 0.0 = .ok first := by rfl
  have hm : ⟨1, 0.0, .frame⟩ ∈ first.begin.agenda.timers := by decide
  have h : Reached (fun _ _ => True) after :=
    ((Reached.make hmade).step ⟨.start true, trivial, rfl⟩).step
      ⟨.fire (some restart) ⟨1, 0.0, .frame⟩, ⟨hm, trivial⟩, rfl⟩
  exact ⟨h, by decide, by decide, by decide, by decide⟩

/-- The stray of a first restart is a frame like any other, and a restart in it makes one more. -/
theorem restart_leaves_stray_twice :
    let restart : Listener := fun _ _ => { commands := [.stop, .start], fails := true }
    let first : Transport := { engine := some (.ok 0.25) }
    let once := first.begin.fire (some restart) ⟨1, 0.0, .frame⟩
    let twice := once.fire (some restart) ⟨2, 0.0, .frame⟩
    let later := twice.fire none ⟨3, 1.0 / 60.0, .frame⟩
    once.playhead.running = true ∧ (once.reach ⟨2, 0.0, .frame⟩).columnDue? = some 4 ∧
      (once.agenda.waiting .frame).length = 2 ∧ (twice.agenda.waiting .frame).length = 3 ∧
      (twice.stop.agenda.waiting .frame).length = 2 ∧
      2 ≤ (later.stop.agenda.waiting .frame).length := by
  intro restart first once twice later
  have hmade : make 16 120.0 (1.0 / 60.0) (some (.ok 0.25)) 0.0 = .ok first := by rfl
  have hm : ⟨1, 0.0, .frame⟩ ∈ first.begin.agenda.timers := by decide
  have h : Reached (fun _ _ => True) once :=
    ((Reached.make hmade).step ⟨.start true, trivial, rfl⟩).step
      ⟨.fire (some restart) ⟨1, 0.0, .frame⟩, ⟨hm, trivial⟩, rfl⟩
  have hr : once.playhead.running = true := by decide
  have hc : (once.reach ⟨2, 0.0, .frame⟩).columnDue? = some 4 := by decide
  have hs : Restarts (restart once.reported 4).commands := ⟨[], [], rfl, List.not_mem_nil⟩
  have hstray : ⟨2, 0.0, .frame⟩ ∈ once.agenda.waiting .frame := by decide
  have htwo : (once.agenda.waiting .frame).length = 2 := by decide
  obtain ⟨-, hgo, hmore, hstop, hlater⟩ := restart_leaves_stray h hstray hr hc hs
  have hw : ⟨3, 1.0 / 60.0, .frame⟩ ∈ twice.agenda.timers := by decide
  have hg : Going twice later :=
    ⟨hgo, .fire none ⟨3, 1.0 / 60.0, .frame⟩, ⟨hw, by decide⟩, rfl⟩
  rw [htwo] at hmore hstop hlater
  exact ⟨hr, hc, htwo, hmore, hstop, hlater later (.single hg)⟩

end Transport

end StepSequencer
