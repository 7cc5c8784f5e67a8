import StepSequencer.Proofs.Frames
import Mathlib.Logic.Relation

/-! A playhead at rest is silent until it is started. Frames may still wait on the agenda then, those
that a restart has set and nothing holds, but they fire without effect. -/

namespace StepSequencer.Transport

def Operation.Starts (transport : Transport) (operation : Operation) : Prop :=
  (∃ looped, operation = .start looped ∨ operation = .enter looped) ∧
    (transport.perform operation).2 = none

/-- Any step but a successful start. -/
def Unstarted (before after : Transport) : Prop :=
  ∃ operation : Operation, ¬operation.Starts before ∧
    operation.Possible (fun _ _ => True) before ∧ after = (before.perform operation).1

/-- Nothing was read and nothing reported, no timer was set, and the playhead rests where it was. -/
structure Silent (before after : Transport) : Prop where
  running : after.playhead.running = false
  journal : after.journal = before.journal
  nextId : after.agenda.nextId = before.agenda.nextId
  timers : after.agenda.timers.Sublist before.agenda.timers
  position : after.playhead.position = before.playhead.position

theorem Silent.trans {first second third : Transport} (h : Silent first second)
    (h' : Silent second third) : Silent first third where
  running := h'.running
  journal := h'.journal.trans h.journal
  nextId := h'.nextId.trans h.nextId
  timers := h'.timers.trans h.timers
  position := h'.position.trans h.position

variable {transport after : Transport}

theorem silent_refl (h : transport.playhead.running = false) : Silent transport transport :=
  ⟨h, rfl, rfl, .refl _, rfl⟩

/-! At rest the playhead stands at the first column. -/

def Rewound (transport : Transport) : Prop :=
  transport.playhead.running = false → transport.playhead.position = 0.0

theorem rewound_of_running (h : transport.playhead.running = true) : transport.Rewound :=
  fun hr => absurd (h.symm.trans hr) Bool.true_eq_false.mp

theorem Rewound.begin (h : transport.Rewound) : transport.begin.Rewound := by
  cases hr : transport.playhead.running with
  | true => rwa [begin_of_running hr]
  | false => exact rewound_of_running (begin_of_stopped hr).2.2

theorem rewound_stop (transport : Transport) : transport.stop.Rewound := fun _ => rfl

theorem Rewound.foldl_obey (h : transport.Rewound) (commands : List Command) :
    (commands.foldl Transport.obey transport).Rewound := by
  induction commands generalizing transport with
  | nil => exact h
  | cons command more ih =>
    cases command with
    | stop => exact ih (rewound_stop transport)
    | start => exact ih h.begin

theorem Rewound.report (h : transport.Rewound) (listener : Option Listener) (column : Int) :
    (transport.report listener column).Rewound := by
  cases listener with
  | none => exact h
  | some respond =>
    obtain ⟨obeyed, rfl, -, hp, -⟩ := @report_some transport respond column
    have ho : (transport.log (.column column)).Rewound := h
    rw [Rewound, hp]
    exact ho.foldl_obey _

theorem Rewound.scheduleFrame (h : transport.Rewound) : transport.scheduleFrame.Rewound := by
  cases hr : transport.playhead.running with
  | true => exact rewound_of_running (scheduleFrame_of_running hr).2.2
  | false => rwa [scheduleFrame_of_stopped hr]

theorem rewound_runFrame (h : transport.playhead.running = true) (listener : Option Listener) :
    (transport.runFrame listener).Rewound := by
  cases frameEnds transport listener with
  | unreported middle _ ends =>
    exact ends ▸ (rewound_of_running (middle.running.trans h)).scheduleFrame
  | @reported _ _ column middle _ _ _ ends =>
    exact ends ▸ ((rewound_of_running (middle.running.trans h)).report listener column).scheduleFrame
  | broken middle _ _ ends => exact ends ▸ rewound_of_running (middle.running.trans h)

theorem Sound.rewound_fire (hs : transport.Sound) (h : transport.Rewound)
    (listener : Option Listener) (timer : Timer) : (transport.fire listener timer).Rewound := by
  cases hr : transport.playhead.running with
  | false =>
    rw [hs.fire_of_stopped hr]
    exact h
  | true =>
    cases hj : timer.job with
    | frame =>
      rw [fire_frame listener hj]
      exact @rewound_runFrame (transport.reach timer) hr listener
    | emission =>
      rw [fire_emission listener hj]
      exact h

theorem Reached.rewound {Admits : Transport → Option Listener → Prop}
    (h : Reached Admits transport) : transport.Rewound := by
  induction h with
  | make made => exact make_eq_ok made ▸ fun _ => rfl
  | @step before _ reached hs ih =>
    obtain ⟨operation, -, rfl⟩ := hs
    have hstart (looped : Bool) : (before.perform (.start looped)).1.Rewound := by
      rw [perform_start]
      split
      · exact ih.begin
      · exact ih
    cases operation with
    | start looped => exact hstart looped
    | enter looped => exact hstart looped
    | stop => exact rewound_stop before
    | exit => exact rewound_stop before
    | setStepCount stepCount => exact ih
    | setTempo tempo => exact ih
    | setEngine engine => exact ih
    | wait now => exact ih
    | fire listener timer => exact reached.sound.rewound_fire ih listener timer

/-! Whatever is done to a playhead at rest. -/

theorem perform_of_not_starts {looped : Bool} (hr : transport.playhead.running = false)
    (hn : ¬Operation.Starts transport (.start looped)) :
    transport.perform (.start looped) = (transport, some .noLoop) := by
  rw [perform_start, hr, Bool.false_or]
  cases looped with
  | false => rfl
  | true =>
    refine absurd ⟨⟨true, .inl rfl⟩, ?_⟩ hn
    rw [perform_start, Bool.or_true, if_pos rfl]

theorem Sound.stop_of_stopped (h : transport.Sound) (hr : transport.playhead.running = false) :
    transport.stop.agenda = transport.agenda := by
  rw [Transport.stop, h.frame_of_stopped hr]

theorem Unstarted.silent (h : Reached (fun _ _ => True) transport)
    (hr : transport.playhead.running = false) (hs : Unstarted transport after) :
    Reached (fun _ _ => True) after ∧ Silent transport after := by
  obtain ⟨operation, hn, hp, rfl⟩ := hs
  refine ⟨h.step ⟨operation, hp, rfl⟩, ?_⟩
  have hstop : Silent transport transport.stop := by
    have ha := h.sound.stop_of_stopped hr
    exact ⟨rfl, rfl, congrArg _ ha, ha ▸ .refl _, (h.rewound hr).symm⟩
  have hstart {looped : Bool} (hn : ¬Operation.Starts transport (.start looped)) :
      Silent transport (transport.perform (.start looped)).1 := by
    rw [perform_of_not_starts hr hn]
    exact silent_refl hr
  cases operation with
  | start looped => exact hstart hn
  | enter looped => exact @hstart looped fun hs => hn ⟨⟨looped, .inr rfl⟩, hs.2⟩
  | stop => exact hstop
  | exit => exact hstop
  | setStepCount stepCount => exact ⟨hr, rfl, rfl, .refl _, rfl⟩
  | setTempo tempo => exact ⟨hr, rfl, rfl, .refl _, rfl⟩
  | setEngine engine => exact ⟨hr, rfl, rfl, .refl _, rfl⟩
  | wait now => exact ⟨hr, rfl, rfl, .refl _, rfl⟩
  | fire listener timer =>
    rw [perform, h.sound.fire_of_stopped hr]
    exact ⟨hr, rfl, rfl, List.filter_sublist, rfl⟩

/-- A playhead at rest is silent until it is started with success, whatever it has been through and
whichever timers fire: it reads no engine and no clock, reports no column, sets no timer and stays
where it is. A start on a clock sets the first frame at any time. -/
theorem silent_until_started (h : Reached (fun _ _ => True) transport)
    (hr : transport.playhead.running = false)
    (hs : Relation.ReflTransGen Unstarted transport after) :
    Silent transport after ∧ (after.perform (.start true)).2 = none ∧
      (after.perform (.start true)).1.agenda = after.agenda.scheduleNow .frame := by
  have hall : Reached (fun _ _ => True) after ∧ Silent transport after := by
    induction hs with
    | refl => exact ⟨h, silent_refl hr⟩
    | tail _ hstep ih =>
      obtain ⟨hm, hsilent⟩ := ih
      obtain ⟨ha, hlast⟩ := hstep.silent hm hsilent.running
      exact ⟨ha, hsilent.trans hlast⟩
  refine ⟨hall.2, ?_⟩
  rw [perform_start, Bool.or_true, if_pos rfl]
  exact ⟨rfl, (begin_of_stopped hall.2.running).1⟩

/-- A restart has left a frame on the agenda that the stop did not take off. It fires in vain after
a start that fails for want of a clock. -/
theorem silent_until_started_stray :
    let restart : Listener := fun _ _ => { commands := [.stop, .start], fails := true }
    let first : Transport := { engine := some (.ok 0.25) }
    let stopped := (first.begin.fire (some restart) ⟨1, 0.0, .frame⟩).stop
    let after := (stopped.perform (.start false)).1.fire (some restart) ⟨2, 0.0, .frame⟩
    stopped.playhead.running = false ∧ stopped.reported = [4] ∧
      stopped.agenda.waiting .frame = [⟨2, 0.0, .frame⟩] ∧ after.agenda.waiting .frame = [] ∧
      Silent stopped after ∧
      (after.perform (.start true)).1.agenda.waiting .frame = [⟨4, 0.0, .frame⟩] := by
  intro restart first stopped after
  have hmade : make 16 120.0 (1.0 / 60.0) (some (.ok 0.25)) 0.0 = .ok first := by rfl
  have hm : ⟨1, 0.0, .frame⟩ ∈ first.begin.agenda.timers := by decide
  have h : Reached (fun _ _ => True) stopped :=
    (((Reached.make hmade).step ⟨.start true, trivial, rfl⟩).step
      ⟨.fire (some restart) ⟨1, 0.0, .frame⟩, ⟨hm, trivial⟩, rfl⟩).step ⟨.stop, trivial, rfl⟩
  have hw : stopped.agenda.waiting .frame = [⟨2, 0.0, .frame⟩] := by decide
  have hfails : Unstarted stopped (stopped.perform (.start false)).1 :=
    ⟨.start false, fun hs => absurd hs.2 (by decide), trivial, rfl⟩
  have hfires : Unstarted (stopped.perform (.start false)).1 after :=
    ⟨.fire (some restart) ⟨2, 0.0, .frame⟩, fun ⟨⟨_, ho⟩, _⟩ => ho.elim nofun nofun,
      ⟨by decide, trivial⟩, rfl⟩
  obtain ⟨hsilent, -, hnext⟩ :=
    silent_until_started h (by decide) (.tail (.single hfails) hfires)
  exact ⟨by decide, by decide, hw, by decide, hsilent,
    (congrArg (·.waiting .frame) hnext).trans (by decide)⟩

end StepSequencer.Transport
