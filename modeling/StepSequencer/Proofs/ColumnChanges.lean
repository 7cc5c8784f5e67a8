import StepSequencer.Proofs.Restart
import Mathlib.Data.List.Destutter

/-! What the listener to the playhead hears from a start to the next stop: the columns that the frames
come to, without those that only repeat the column before. -/

namespace StepSequencer

section Lists

variable {α : Type} [DecidableEq α]

theorem destutter'_concat (first : α) (items : List α) (item : α) :
    (items ++ [item]).destutter' (· ≠ ·) first =
      if (first :: items).getLast? = some item then items.destutter' (· ≠ ·) first
      else items.destutter' (· ≠ ·) first ++ [item] := by
  induction items generalizing first with
  | nil => by_cases h : first = item <;> simp [h]
  | cons second more ih =>
    rw [List.cons_append, List.getLast?_cons_cons]
    by_cases h : first = second
    · subst h
      have hn : ¬first ≠ first := not_not.mpr rfl
      rw [List.destutter'_cons_neg _ hn, List.destutter'_cons_neg _ hn, ih]
    · rw [List.destutter'_cons_pos _ h, List.destutter'_cons_pos _ h, ih]
      split <;> rfl

theorem destutter_concat (items : List α) (item : α) :
    (items ++ [item]).destutter (· ≠ ·) =
      if items.getLast? = some item then items.destutter (· ≠ ·)
      else items.destutter (· ≠ ·) ++ [item] := by
  cases items with
  | nil => simp
  | cons first more => exact destutter'_concat first more item

theorem head?_destutter (items : List α) : (items.destutter (· ≠ ·)).head? = items.head? := by
  induction items using List.reverseRecOn with
  | nil => rfl
  | append_singleton items item ih =>
    cases items with
    | nil => rfl
    | cons first more =>
      rw [destutter_concat]
      split
      · exact ih
      · rw [List.head?_append, ih]
        rfl

end Lists

theorem columnAt_bounds {position : Float} {stepCount column : Int} (hn : 0 < stepCount)
    (h : columnAt position stepCount = .ok column) : 0 ≤ column ∧ column < stepCount := by
  cases hf : (Binary64.ofFloat position).floor? with
  | none =>
    obtain ⟨fault, he⟩ := columnAt_of_no_floor stepCount hf
    exact absurd (he.symm.trans h) nofun
  | some step =>
    obtain rfl := Except.ok.inj ((columnAt_of_floor (Int.ne_of_gt hn) hf).symm.trans h)
    exact ⟨Int.fmod_nonneg_of_pos step hn, Int.fmod_lt_of_pos step hn⟩

namespace Transport

variable {transport : Transport}

/-- The column that the position now falls in, whether or not it is another than the last one. -/
def columnNow? (transport : Transport) : Option Int :=
  match transport.readPosition.2 with
  | .ok position => (columnAt position transport.playhead.stepCount).toOption
  | .error _ => none

/-- The column that a frame comes to when its timer fires. -/
def seen? (transport : Transport) (timer : Timer) : Option Int :=
  if transport.playhead.running ∧ timer.job = .frame then (transport.reach timer).columnNow?
  else none

namespace Operation

def column? (transport : Transport) : Operation → Option Int
  | .fire _ timer => transport.seen? timer
  | _ => none

/-- The playhead is stopped in the course of the operation, from outside or by its listener. -/
def stops (transport : Transport) : Operation → Bool
  | .stop | .exit => true
  | .fire (some respond) timer =>
    (transport.seen? timer).any fun column => transport.playhead.lastColumn ≠ some column ∧
      .stop ∈ (respond transport.reported column).commands
  | _ => false

end Operation

/-- A run from where the playhead is set running, be it by its listener, up to the operation in which
it is stopped next. Each frame has a listener. Told are the columns reported before, the latest
first, and the columns that the frames have come to since, in order. -/
inductive Stretch : (going : Bool) → (earlier columns : List Int) → Transport → Prop
  | start {before : Transport} {operation : Operation} (reached : Reached (fun _ _ => True) before)
      (possible : operation.Possible (fun _ _ => True) before)
      (rested : before.playhead.running = false ∨ operation.stops before = true)
      (runs : (before.perform operation).1.playhead.running = true) :
      Stretch true (before.perform operation).1.reported [] (before.perform operation).1
  | step {earlier columns : List Int} {before : Transport} {operation : Operation}
      (stretch : Stretch true earlier columns before)
      (possible : operation.Possible (fun _ listener => listener.isSome = true) before) :
      Stretch (!operation.stops before) earlier (columns ++ (operation.column? before).toList)
        (before.perform operation).1

/-! What a frame does to the reports and to the playhead. -/

theorem playhead_scheduleFrame (transport : Transport) :
    ∃ frame, transport.scheduleFrame.playhead = { transport.playhead with frame } := by
  rw [scheduleFrame]
  split
  · exact ⟨_, rfl⟩
  · exact ⟨transport.playhead.frame, rfl⟩

theorem reported_scheduleFrame (transport : Transport) :
    transport.scheduleFrame.reported = transport.reported := by
  rw [scheduleFrame]
  split <;> rfl

theorem reported_foldl_obey (transport : Transport) (commands : List Command) :
    (commands.foldl obey transport).reported = transport.reported := by
  induction commands generalizing transport with
  | nil => rfl
  | cons command more ih =>
    rw [List.foldl_cons, ih]
    cases command with
    | stop => rfl
    | start =>
      rw [obey, begin]
      split <;> rfl

theorem reported_report (transport : Transport) (respond : Listener) (column : Int) :
    (transport.report (some respond) column).reported = column :: transport.reported := by
  have ho := reported_foldl_obey (transport.log (.column column))
    (respond transport.reported column).commands
  rw [report]
  split <;> exact ho

theorem lastColumn_foldl_obey {commands : List Command}
    (h : .stop ∈ commands ∨ transport.playhead.lastColumn = none) :
    (commands.foldl obey transport).playhead.lastColumn = none := by
  induction commands generalizing transport with
  | nil => exact h.resolve_left List.not_mem_nil
  | cons command more ih =>
    cases command with
    | stop => exact ih (.inr rfl)
    | start =>
      refine ih ?_
      rcases h with hm | hn
      · exact .inl (List.mem_of_ne_of_mem (by decide) hm)
      · right
        rw [obey, begin]
        split
        · exact hn
        · rfl

theorem lastColumn_report_of_stop (transport : Transport) {respond : Listener} {column : Int}
    (h : .stop ∈ (respond transport.reported column).commands) :
    (transport.report (some respond) column).playhead.lastColumn = none := by
  obtain ⟨obeyed, rfl, -, hp, -⟩ := @report_some transport respond column
  rw [hp]
  exact lastColumn_foldl_obey (.inl h)

theorem playhead_report_of_not_stop {respond : Listener} {column : Int}
    (h : .stop ∉ (respond transport.reported column).commands)
    (hr : transport.playhead.running = true) :
    (transport.report (some respond) column).playhead = transport.playhead := by
  obtain ⟨obeyed, rfl, -, hp, -⟩ := @report_some transport respond column
  rw [hp, @foldl_obey_of_starts (transport.log (.column column)) _ h hr]
  rfl

/-- A frame that cannot tell its position leaves the playhead as it is, its next frame aside. -/
theorem runFrame_of_error {fault : Fault} (h : transport.readPosition.2 = .error fault)
    (listener : Option Listener) :
    (∃ frame, (transport.runFrame listener).playhead = { transport.playhead with frame }) ∧
      (transport.runFrame listener).reported = transport.reported := by
  cases hr : transport.playhead.running with
  | false =>
    rw [runFrame, if_neg (by simp [hr])]
    exact ⟨⟨none, rfl⟩, rfl⟩
  | true =>
    obtain ⟨read, hm, hp, -, herror⟩ := runFrame_of_running hr listener
    obtain ⟨frame, hf⟩ := playhead_scheduleFrame (read.log (.notice .positionUnread))
    rw [herror fault h, reported_scheduleFrame, hf]
    refine ⟨⟨frame, ?_⟩, hm.reported⟩
    rw [log, hp]

theorem runFrame_of_none (hr : transport.playhead.running = true)
    (h : transport.columnNow? = none) (listener : Option Listener) :
    (transport.runFrame listener).playhead.running = true ∧
      (transport.runFrame listener).playhead.lastColumn = transport.playhead.lastColumn ∧
      (transport.runFrame listener).reported = transport.reported := by
  cases hp : transport.readPosition.2 with
  | error fault =>
    obtain ⟨⟨frame, hf⟩, hk⟩ := runFrame_of_error hp listener
    rw [hf]
    exact ⟨hr, rfl, hk⟩
  | ok position =>
    obtain ⟨read, hm, hplay, hok, -⟩ := runFrame_of_running hr listener
    cases hc : columnAt position transport.playhead.stepCount with
    | ok column => simp [columnNow?, hp, hc, Except.toOption] at h
    | error fault =>
      have hsteps : read.playhead.stepCount = transport.playhead.stepCount := by rw [hplay]
      have hlast : read.playhead.lastColumn = transport.playhead.lastColumn := by rw [hplay]
      rw [hok position hp, moveTo_of_error listener (hsteps ▸ hc)]
      exact ⟨hm.running.trans hr, hlast, hm.reported⟩

theorem columnAt_of_columnNow? {column : Int} (h : transport.columnNow? = some column) :
    ∃ position, transport.readPosition.2 = .ok position ∧
      columnAt position transport.playhead.stepCount = .ok column := by
  rw [columnNow?] at h
  split at h
  next position hp =>
    refine ⟨position, hp, ?_⟩
    cases hc : columnAt position transport.playhead.stepCount with
    | error fault => simp [hc, Except.toOption] at h
    | ok other => rw [hc] at h; exact congrArg _ (Option.some.inj h)
  next => contradiction

theorem columnNow?_of_columnDue? {column : Int} (h : transport.columnDue? = some column) :
    transport.columnNow? = some column := by
  rw [columnDue?] at h
  rw [columnNow?]
  cases hp : transport.readPosition.2 with
  | error fault => simp [hp] at h
  | ok position =>
    cases hc : columnAt position transport.playhead.stepCount with
    | error fault => simp [hp, hc] at h
    | ok other =>
      simp only [hp, hc] at h
      split at h
      · contradiction
      · simpa only [hc, Except.toOption] using h

theorem runFrame_of_same {column : Int} (hr : transport.playhead.running = true)
    (h : transport.columnNow? = some column) (hl : transport.playhead.lastColumn = some column)
    (listener : Option Listener) :
    (transport.runFrame listener).playhead.running = true ∧
      (transport.runFrame listener).playhead.lastColumn = some column ∧
      (transport.runFrame listener).reported = transport.reported := by
  obtain ⟨position, hp, hc⟩ := columnAt_of_columnNow? h
  obtain ⟨read, hm, hplay, hok, -⟩ := runFrame_of_running hr listener
  have hsteps : read.playhead.stepCount = transport.playhead.stepCount := by rw [hplay]
  have hlast : read.playhead.lastColumn = some column := by rw [hplay, hl]
  obtain ⟨frame, hf⟩ :=
    playhead_scheduleFrame { read with playhead.position := position : Transport }
  rw [hok position hp, moveTo_of_same listener (hsteps ▸ hc) hlast, reported_scheduleFrame, hf]
  exact ⟨hm.running.trans hr, hlast, hm.reported⟩

theorem runFrame_of_new {column : Int} (hr : transport.playhead.running = true)
    (h : transport.columnNow? = some column) (hl : transport.playhead.lastColumn ≠ some column)
    (listener : Option Listener) :
    ∃ mid : Transport, mid.playhead.running = true ∧ mid.playhead.lastColumn = some column ∧
      mid.reported = transport.reported ∧
      transport.runFrame listener = (mid.report listener column).scheduleFrame := by
  obtain ⟨position, hp, hc⟩ := columnAt_of_columnNow? h
  obtain ⟨read, hm, hplay, hok, -⟩ := runFrame_of_running hr listener
  have hsteps : read.playhead.stepCount = transport.playhead.stepCount := by rw [hplay]
  have hlast : read.playhead.lastColumn ≠ some column := by rwa [hplay]
  refine ⟨_, ?_, ?_, ?_, (hok position hp).trans (moveTo_of_new listener (hsteps ▸ hc) hlast)⟩
  · exact hm.running.trans hr
  · rfl
  · exact hm.reported

/-! Stretches. -/

/-- The listener was told the changes. A playhead that is still going remembers the column that its
last frame has come to. -/
structure Told (going : Bool) (earlier columns : List Int) (transport : Transport) : Prop where
  running : going = true → transport.playhead.running = true
  lastColumn : going = true → transport.playhead.lastColumn = columns.getLast?
  reported : transport.reported = (columns.destutter (· ≠ ·)).reverse ++ earlier

section Told

variable {earlier columns : List Int}

theorem Told.congr {after : Transport} (h : Told true earlier columns transport) (going : Bool)
    (hp : after.playhead.running = true)
    (hl : after.playhead.lastColumn = transport.playhead.lastColumn)
    (hr : after.reported = transport.reported) : Told going earlier (columns ++ []) after := by
  rw [List.append_nil]
  exact ⟨fun _ => hp, fun _ => hl.trans (h.lastColumn rfl), hr.trans h.reported⟩

theorem Told.runFrame (h : Told true earlier columns transport) (respond : Listener) {going : Bool}
    (hg : going = true → ∀ column, transport.columnNow? = some column →
      transport.playhead.lastColumn ≠ some column →
        .stop ∉ (respond transport.reported column).commands) :
    Told going earlier (columns ++ transport.columnNow?.toList)
      (transport.runFrame (some respond)) := by
  have hrun := h.running rfl
  have hlast := h.lastColumn rfl
  cases hc : transport.columnNow? with
  | none =>
    obtain ⟨hr, hl, hk⟩ := runFrame_of_none hrun hc (some respond)
    exact h.congr going hr hl hk
  | some column =>
    rw [Option.toList_some]
    by_cases hl : transport.playhead.lastColumn = some column
    · obtain ⟨hr, hs, hk⟩ := runFrame_of_same hrun hc hl (some respond)
      refine ⟨fun _ => hr, fun _ => hs.trans (List.getLast?_concat ..).symm, ?_⟩
      rw [hk, h.reported, destutter_concat, if_pos (hlast ▸ hl)]
    · obtain ⟨mid, hr, hs, hk, hends⟩ := runFrame_of_new hrun hc hl (some respond)
      obtain ⟨frame, hf⟩ := playhead_scheduleFrame (mid.report (some respond) column)
      have hp (hx : going = true) :
          (mid.report (some respond) column).playhead = mid.playhead :=
        playhead_report_of_not_stop (hk ▸ hg hx column hc hl) hr
      rw [hends]
      refine ⟨fun hx => ?_, fun hx => ?_, ?_⟩
      · rw [hf, hp hx, hr]
      · rw [hf, hp hx, hs, List.getLast?_concat]
      · rw [reported_scheduleFrame, reported_report, hk, h.reported, destutter_concat,
          if_neg (hlast ▸ hl), List.reverse_concat, List.cons_append]

theorem Told.fire (h : Told true earlier columns transport) (respond : Listener) (timer : Timer) :
    Told (!Operation.stops transport (.fire (some respond) timer)) earlier
      (columns ++ (transport.seen? timer).toList) (transport.fire (some respond) timer) := by
  have hreach : Told true earlier columns (transport.reach timer) :=
    ⟨h.running, h.lastColumn, h.reported⟩
  cases hj : timer.job with
  | emission =>
    have hs : transport.seen? timer = none := by simp [seen?, hj]
    rw [fire_emission _ hj, hs]
    exact h.congr _ (h.running rfl) rfl rfl
  | frame =>
    have hs : transport.seen? timer = (transport.reach timer).columnNow? := by
      simp [seen?, hj, h.running rfl]
    rw [fire_frame _ hj, hs]
    refine hreach.runFrame respond fun hg column hc hl hm => ?_
    have hstops : Operation.stops transport (.fire (some respond) timer) = true := by
      simp only [Operation.stops, hs, hc, Option.any_some, decide_eq_true_eq]
      exact ⟨hl, hm⟩
    simp [hstops] at hg

theorem Told.step (h : Told true earlier columns transport) {operation : Operation}
    (possible : operation.Possible (fun _ listener => listener.isSome = true) transport) :
    Told (!operation.stops transport) earlier (columns ++ (operation.column? transport).toList)
      (transport.perform operation).1 := by
  have hrun := h.running rfl
  have hstart (looped : Bool) :
      Told true earlier (columns ++ []) (transport.perform (.start looped)).1 := by
    rw [perform_start, hrun, begin_of_running hrun]
    exact h.congr true hrun rfl rfl
  have hstop : Told false earlier (columns ++ []) transport.stop := by
    rw [List.append_nil]
    exact ⟨nofun, nofun, h.reported⟩
  cases operation with
  | start looped => exact hstart looped
  | enter looped => exact hstart looped
  | stop => exact hstop
  | exit => exact hstop
  | setStepCount stepCount => exact h.congr _ hrun rfl rfl
  | setTempo tempo => exact h.congr _ hrun rfl rfl
  | setEngine engine => exact h.congr _ hrun rfl rfl
  | wait now => exact h.congr _ hrun rfl rfl
  | fire listener timer =>
    obtain ⟨respond, rfl⟩ := Option.isSome_iff_exists.mp possible.2
    exact h.fire respond timer

end Told

/-! A playhead that is set running has no column behind it. -/

theorem lastColumn_start (hr : transport.playhead.running = false) {looped : Bool}
    (runs : (transport.perform (.start looped)).1.playhead.running = true) :
    (transport.perform (.start looped)).1.playhead.lastColumn = none := by
  rw [perform_start, hr, Bool.false_or] at runs ⊢
  cases looped with
  | false => exact absurd (hr.symm.trans runs) nofun
  | true => simp [begin, hr]

theorem lastColumn_runFrame_of_stop {respond : Listener} {column : Int}
    (hr : transport.playhead.running = true) (h : transport.columnNow? = some column)
    (hl : transport.playhead.lastColumn ≠ some column)
    (hm : .stop ∈ (respond transport.reported column).commands) :
    (transport.runFrame (some respond)).playhead.lastColumn = none := by
  obtain ⟨mid, -, -, hk, hends⟩ := runFrame_of_new hr h hl (some respond)
  obtain ⟨frame, hf⟩ := playhead_scheduleFrame (mid.report (some respond) column)
  rw [hends, hf]
  exact lastColumn_report_of_stop mid (hk.symm ▸ hm)

theorem seen?_eq_some {timer : Timer} {column : Int} (h : transport.seen? timer = some column) :
    transport.playhead.running = true ∧ timer.job = .frame ∧
      (transport.reach timer).columnNow? = some column := by
  rw [seen?] at h
  split at h
  next hc => exact ⟨hc.1, hc.2, h⟩
  next => contradiction

theorem lastColumn_of_start {operation : Operation} (h : transport.Sound)
    (rested : transport.playhead.running = false ∨ operation.stops transport = true)
    (runs : (transport.perform operation).1.playhead.running = true) :
    (transport.perform operation).1.playhead.lastColumn = none := by
  have hrest (hn : operation.stops transport = false) : transport.playhead.running = false :=
    rested.resolve_right fun hs => absurd (hn.symm.trans hs) Bool.false_ne_true
  cases operation with
  | start looped => exact lastColumn_start (hrest rfl) runs
  | enter looped => exact lastColumn_start (hrest rfl) runs
  | stop => rfl
  | exit => rfl
  | setStepCount stepCount => exact absurd ((hrest rfl).symm.trans runs) Bool.false_ne_true
  | setTempo tempo => exact absurd ((hrest rfl).symm.trans runs) Bool.false_ne_true
  | setEngine engine => exact absurd ((hrest rfl).symm.trans runs) Bool.false_ne_true
  | wait now => exact absurd ((hrest rfl).symm.trans runs) Bool.false_ne_true
  | fire listener timer =>
    rcases rested with hr | hs
    · rw [perform, h.fire_of_stopped hr] at runs
      exact absurd (hr.symm.trans runs) Bool.false_ne_true
    · cases listener with
      | none => exact absurd hs Bool.false_ne_true
      | some respond =>
        simp only [Operation.stops, Option.any_eq_true, decide_eq_true_eq] at hs
        obtain ⟨column, hc, hl, hm⟩ := hs
        obtain ⟨hr, hj, hc⟩ := seen?_eq_some hc
        rw [perform, fire_frame _ hj]
        exact @lastColumn_runFrame_of_stop (transport.reach timer) respond column hr hc hl hm

theorem Stretch.told {going : Bool} {earlier columns : List Int}
    (h : Stretch going earlier columns transport) : Told going earlier columns transport := by
  induction h with
  | start reached _ rested runs =>
    exact ⟨fun _ => runs, fun _ => lastColumn_of_start reached.sound rested runs, rfl⟩
  | step _ possible ih => exact ih.step possible

theorem Stretch.reached {going : Bool} {earlier columns : List Int}
    (h : Stretch going earlier columns transport) : Reached (fun _ _ => True) transport := by
  induction h with
  | start reached possible _ _ => exact reached.step ⟨_, possible, rfl⟩
  | @step _ _ _ operation _ possible ih =>
    refine ih.step ⟨operation, ?_, rfl⟩
    cases operation with
    | fire listener timer => exact ⟨possible.1, trivial⟩
    | _ => trivial

theorem Stretch.fire {earlier columns seen : List Int} {going : Bool}
    (h : Stretch true earlier columns transport) {respond : Listener} {timer : Timer}
    (hm : timer ∈ transport.agenda.timers)
    (hs : Operation.stops transport (.fire (some respond) timer) = !going)
    (hc : (transport.seen? timer).toList = seen) :
    Stretch going earlier (columns ++ seen) (transport.fire (some respond) timer) := by
  obtain rfl : going = !Operation.stops transport (.fire (some respond) timer) := by
    rw [hs, Bool.not_not]
  exact hc ▸ h.step ⟨hm, rfl⟩

/-- A frame of a playhead with columns reports one of them or none. -/
theorem reported_fire (h : 0 < transport.playhead.stepCount) (listener : Option Listener)
    (timer : Timer) :
    (transport.fire listener timer).reported = transport.reported ∨
      ∃ column, 0 ≤ column ∧ column < transport.playhead.stepCount ∧
        (transport.fire listener timer).reported = column :: transport.reported := by
  cases hj : timer.job with
  | emission =>
    rw [fire_emission listener hj]
    exact .inl rfl
  | frame =>
    rw [fire_frame listener hj]
    cases frameEnds (transport.reach timer) listener with
    | unreported middle _ ends =>
      rw [ends, reported_scheduleFrame]
      exact .inl middle.reported
    | broken middle _ _ ends =>
      rw [ends]
      exact .inl middle.reported
    | @reported mid respond column middle answers _ due ends =>
      subst answers
      obtain ⟨position, -, hc⟩ := columnAt_of_columnNow? (columnNow?_of_columnDue? due)
      obtain ⟨hl, hu⟩ := columnAt_bounds h hc
      rw [ends, reported_scheduleFrame, reported_report, middle.reported]
      exact .inr ⟨column, hl, hu, rfl⟩

theorem playhead_fire_of_error {timer : Timer} {fault : Fault}
    (h : (transport.reach timer).readPosition.2 = .error fault) (listener : Option Listener) :
    (∃ frame, (transport.fire listener timer).playhead = { transport.playhead with frame }) ∧
      (transport.fire listener timer).reported = transport.reported := by
  cases hj : timer.job with
  | emission =>
    rw [fire_emission listener hj]
    exact ⟨⟨transport.playhead.frame, rfl⟩, rfl⟩
  | frame =>
    rw [fire_frame listener hj]
    exact runFrame_of_error h listener

/-- From a start of the playhead to the next stop its listener hears the columns of the frames that
fall in one, repetitions collapsed, whatever it does itself and whichever frames fail in between: the
first column, and each that is another than the one before. A start of a running playhead begins
nothing anew. A frame of a playhead with columns reports one of them at most, and a frame that cannot
tell its position changes neither the position nor the column that is remembered. -/
theorem column_changes_reported :
    (∀ {going : Bool} {earlier columns : List Int} {transport : Transport},
      Stretch going earlier columns transport →
        let changes := columns.destutter (· ≠ ·)
        transport.reported = changes.reverse ++ earlier ∧ changes.head? = columns.head? ∧
          changes.IsChain (· ≠ ·)) ∧
    (∀ (transport : Transport) (listener : Option Listener) (timer : Timer),
      0 < transport.playhead.stepCount →
        (transport.fire listener timer).reported = transport.reported ∨
          ∃ column, 0 ≤ column ∧ column < transport.playhead.stepCount ∧
            (transport.fire listener timer).reported = column :: transport.reported) ∧
    ∀ (transport : Transport) (listener : Option Listener) (timer : Timer) (fault : Fault),
      (transport.reach timer).readPosition.2 = .error fault →
        let after := transport.fire listener timer
        after.playhead.position = transport.playhead.position ∧
          after.playhead.lastColumn = transport.playhead.lastColumn ∧
            after.reported = transport.reported := by
  refine ⟨fun h => ?_, fun transport listener timer h => reported_fire h listener timer,
    fun transport listener timer fault h => ?_⟩
  · exact ⟨h.told.reported, head?_destutter _, List.isChain_destutter _ _⟩
  · obtain ⟨⟨frame, hf⟩, hr⟩ := playhead_fire_of_error h listener
    exact ⟨by rw [hf], by rw [hf], hr⟩

/-- The listener fails on column 4. After a frame that misses it restarts the playhead on column 8,
which it then hears again. -/
theorem column_changes_reported_restart :
    let respond : Listener := fun _ column =>
      if column = 8 then { commands := [.stop, .start] } else { fails := true }
    let first : Transport := { engine := some (.ok 0.25) }
    let heard := first.begin.fire (some respond) ⟨1, 0.0, .frame⟩
    let offline : Transport := { heard with engine := some (.error "offline") }
    let missed := offline.fire (some respond) ⟨2, 1.0 / 60.0, .frame⟩
    let online : Transport := { missed with engine := some (.ok 0.5) }
    let restarted := online.fire (some respond) ⟨3, 1.0 / 60.0 + 1.0 / 60.0, .frame⟩
    let again := restarted.fire (some respond) ⟨4, 1.0 / 60.0 + 1.0 / 60.0, .frame⟩
    Stretch false [] [4, 8] restarted ∧ restarted.reported = [8, 4] ∧
      Stretch false [8, 4] [8] again ∧ again.reported = [8, 8, 4] ∧
      missed.playhead.position = heard.playhead.position ∧ missed.reported = [4] := by
  intro respond first heard offline missed online restarted again
  have hmade : make 16 120.0 (1.0 / 60.0) (some (.ok 0.25)) 0.0 = .ok first := by rfl
  have hbegin : Stretch true [] [] first.begin :=
    @Stretch.start first (.start true) (.make hmade) trivial (.inl rfl) rfl
  have hheard : Stretch true [] [4] heard :=
    hbegin.fire (by decide +kernel) (by decide +kernel) (by decide +kernel)
  have hoffline : Stretch true [] [4] offline :=
    @Stretch.step _ _ _ (.setEngine (some (.error "offline"))) hheard trivial
  have hmissed : Stretch true [] [4] missed :=
    hoffline.fire (by decide +kernel) (by decide +kernel) (by decide +kernel)
  have honline : Stretch true [] [4] online :=
    @Stretch.step _ _ _ (.setEngine (some (.ok 0.5))) hmissed trivial
  have hrestarted : Stretch false [] [4, 8] restarted :=
    honline.fire (by decide +kernel) (by decide +kernel) (by decide +kernel)
  obtain ⟨hchanges, -, hmisses⟩ := column_changes_reported
  have hreports : restarted.reported = [8, 4] := (hchanges hrestarted).1.trans (by decide)
  have hanew : Stretch true restarted.reported [] restarted :=
    @Stretch.start online (.fire (some respond) ⟨3, 1.0 / 60.0 + 1.0 / 60.0, .frame⟩)
      honline.reached ⟨by decide +kernel, trivial⟩ (.inr (by decide +kernel)) (by decide +kernel)
  rw [hreports] at hanew
  have hagain : Stretch false [8, 4] [8] again :=
    hanew.fire (by decide +kernel) (by decide +kernel) (by decide +kernel)
  obtain ⟨hposition, -, hmissed⟩ := hmisses offline (some respond) ⟨2, 1.0 / 60.0, .frame⟩
    (.engine "offline") rfl
  exact ⟨hrestarted, hreports, hagain, (hchanges hagain).1.trans (by decide), hposition,
    hmissed.trans (by decide +kernel)⟩

end Transport

end StepSequencer
