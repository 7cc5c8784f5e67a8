import StepSequencer.Proofs.Frames

/-! A running playhead has one frame to come, and a stopped one none, as long as its listener does
not start it. -/

namespace StepSequencer

namespace Transport

variable {transport : Transport}

/-- A frame whose position falls in a column, with a listener that does not start the playhead. -/
structure Steady (reached : Transport) (listener : Option Listener) : Prop where
  readable : reached.Readable
  onlyStops : ∀ respond ∈ listener, respond.OnlyStops

structure Chained (transport : Transport) : Prop where
  sound : transport.Sound
  held : transport.Held
  strays : transport.strays = []

theorem frame_foldl_obey_of_stops {commands : List Command}
    (h : ∀ command ∈ commands, command = .stop) (hf : transport.playhead.frame = none) :
    (commands.foldl Transport.obey transport).playhead.frame = none := by
  induction commands generalizing transport with
  | nil => exact hf
  | cons command more ih =>
    obtain ⟨rfl, hm⟩ := List.forall_mem_cons.mp h
    exact ih hm rfl

theorem strays_runFrame_of_onlyStops (h : transport.agenda.WellNumbered)
    {listener : Option Listener} (ho : ∀ respond ∈ listener, respond.OnlyStops) :
    (transport.runFrame listener).strays = transport.agenda.waiting .frame := by
  cases frameEnds transport listener with
  | unreported middle _ ends =>
    rw [ends, (middle.sound h).strays_scheduleFrame, middle.agenda]
  | @reported mid respond column middle answers _ _ ends =>
    subst answers
    obtain ⟨obeyed, rfl, -, hpo, -⟩ := @report_some mid respond column
    have hn : (mid.report (some respond) column).playhead.frame = none := by
      rw [hpo]
      exact frame_foldl_obey_of_stops (ho respond rfl _ _) middle.frame
    obtain ⟨hr, hk⟩ := (middle.sound h).report (some respond) column
    rw [ends, hr.strays_scheduleFrame, ← strays_of_frame_none hn, hk, middle.strays]
  | broken middle _ _ ends => rw [ends, middle.strays]

/-- A frame that fires in a chain is the one that is held. -/
theorem Chained.waiting_reach (h : transport.Chained) {timer : Timer}
    (hm : timer ∈ transport.agenda.waiting .frame) :
    (transport.reach timer).agenda.waiting .frame = [] := by
  have hf : transport.playhead.frame = some timer.id := by
    by_contra hne
    have hs : timer ∈ transport.strays := List.mem_filter.mpr ⟨hm, by simpa using hne⟩
    rw [h.strays] at hs
    exact absurd hs List.not_mem_nil
  rw [Transport.waiting_reach, ← strays_of_frame hf, h.strays]

theorem Chained.step (h : transport.Chained) {after : Transport}
    (hs : Step Steady transport after) : after.Chained := by
  obtain ⟨operation, hp, rfl⟩ := hs
  by_cases hf : ∃ listener timer, operation = .fire listener timer
  · obtain ⟨listener, timer, rfl⟩ := hf
    obtain ⟨hm, hread, hstops⟩ := hp
    have hw : (transport.reach timer).agenda.WellNumbered := h.sound.wellNumbered.reach timer
    -- A frame that fires leaves no other behind, so what it sets is the only one again.
    refine ⟨h.sound.fire listener hm, ?_, ?_⟩
    all_goals
      rw [perform]
      cases hj : timer.job
    · rw [fire_frame listener hj]
      exact held_runFrame hread listener
    · rw [fire_emission listener hj]
      exact h.held
    · rw [fire_frame listener hj, strays_runFrame_of_onlyStops hw hstops]
      exact h.waiting_reach (Agenda.mem_waiting.mpr ⟨hm, hj⟩)
    · rw [fire_emission listener hj, Transport.strays,
        waiting_reach_of_ne h.sound.wellNumbered hm (by simp [hj])]
      exact h.strays
  · obtain ⟨hsound, hstrays, hheld⟩ :=
      h.sound.perform operation fun listener timer he => hf ⟨listener, timer, he⟩
    exact ⟨hsound, hheld h.held, hstrays.trans h.strays⟩

theorem Reached.chained (h : Reached Steady transport) : transport.Chained := by
  induction h with
  | make made =>
    obtain ⟨hs, hn, hr⟩ := Sound.make made
    exact ⟨hs, fun h => absurd (hr.symm.trans h) nofun, hn⟩
  | step _ hs ih => exact ih.step hs

theorem Chained.waiting_of_running (h : transport.Chained)
    (hr : transport.playhead.running = true) :
    ∃ timer, transport.agenda.waiting .frame = [timer] ∧
      transport.playhead.frame = some timer.id := by
  obtain ⟨id, hf⟩ := Option.isSome_iff_exists.mp (h.held hr)
  obtain ⟨timer, hm, rfl⟩ := h.sound.frame_waiting id hf
  have hl := h.sound.length_waiting
  rw [h.strays, hf] at hl
  obtain ⟨only, ho⟩ := List.length_eq_one_iff.mp hl
  rw [ho] at hm ⊢
  rw [List.mem_singleton.mp hm] at hf
  exact ⟨only, rfl, hf⟩

theorem Chained.waiting_of_stopped (h : transport.Chained)
    (hr : transport.playhead.running = false) :
    transport.agenda.waiting .frame = [] ∧ transport.playhead.frame = none := by
  have hf := h.sound.frame_of_stopped hr
  exact ⟨strays_of_frame_none hf ▸ h.strays, hf⟩

/-- As long as no listener starts the playhead, a running playhead has just the frame to come that
it holds, and a stopped one has none. A start without a clock fails and changes nothing, and neither
does a start of a running playhead change anything. -/
theorem one_frame_to_come (h : Reached Steady transport) :
    (transport.playhead.running = true → ∃ timer, transport.agenda.waiting .frame = [timer] ∧
      transport.playhead.frame = some timer.id) ∧
    (transport.playhead.running = false → transport.agenda.waiting .frame = [] ∧
      transport.playhead.frame = none) ∧
    (transport.playhead.running = false →
      transport.perform (.start false) = (transport, some .noLoop) ∧
      (transport.perform (.start true)).1.playhead.running = true) ∧
    (transport.playhead.running = true → ∀ looped,
      transport.perform (.start looped) = (transport, none)) := by
  refine ⟨h.chained.waiting_of_running, h.chained.waiting_of_stopped, fun hr => ?_,
    fun hr looped => ?_⟩
  · rw [perform_start, perform_start, hr]
    exact ⟨rfl, (begin_of_stopped hr).2.2⟩
  · rw [perform_start, hr, begin_of_running hr]
    rfl

/-- A listener that fails in the first frame does not keep the next frame from being set. -/
theorem one_frame_to_come_failing :
    let respond : Listener := fun _ _ => { fails := true }
    let first : Transport := { engine := some (.ok 0.25) }
    let after := first.begin.fire (some respond) ⟨1, 0.0, .frame⟩
    Reached Steady after ∧ after.playhead.running = true ∧ after.playhead.lastColumn = some 4 ∧
      ∃ timer, after.agenda.waiting .frame = [timer] ∧ after.playhead.frame = some timer.id := by
  intro respond first after
  have hmade : make 16 120.0 (1.0 / 60.0) (some (.ok 0.25)) 0.0 = .ok first := by rfl
  have hm : ⟨1, 0.0, .frame⟩ ∈ first.begin.agenda.timers := by decide
  have hsteady : Steady (first.begin.reach ⟨1, 0.0, .frame⟩) (some respond) :=
    ⟨by decide, fun _ he => Option.some.inj he ▸ fun _ _ => nofun⟩
  have h : Reached Steady after :=
    ((Reached.make hmade).step ⟨.start true, trivial, rfl⟩).step
      ⟨.fire (some respond) ⟨1, 0.0, .frame⟩, ⟨hm, hsteady⟩, rfl⟩
  have hr : after.playhead.running = true := by decide
  exact ⟨h, hr, by decide, (one_frame_to_come h).1 hr⟩

end Transport

end StepSequencer
