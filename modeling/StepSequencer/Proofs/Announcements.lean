import StepSequencer.Proofs.Quiet
import StepSequencer.Session.Run

/-! The one announcement to come: while a session runs, the timer that it remembers is the only one
of its kind on the agenda, whatever its listener does. -/

namespace StepSequencer.Session

/-- What a session keeps in all runs. -/
structure Sound (session : Session) : Prop where
  transport : session.transport.Sound
  pending_waiting : ∀ id, session.pending = some id →
    ∃ timer ∈ session.transport.agenda.waiting .emission, timer.id = id
  waiting_pending : ∀ timer ∈ session.transport.agenda.waiting .emission,
    session.pending = some timer.id

variable {session after : Session}

theorem Sound.of_quiet (h : session.Sound) (ht : after.transport.Sound)
    (hp : after.pending = session.pending)
    (hq : session.transport.Quiet after.transport) : after.Sound where
  transport := ht
  pending_waiting := by rw [hp, hq.waiting]; exact h.pending_waiting
  waiting_pending := by rw [hp, hq.waiting]; exact h.waiting_pending

theorem Sound.of_none (ht : session.transport.Sound) (hp : session.pending = none)
    (hw : session.transport.agenda.waiting .emission = []) : session.Sound where
  transport := ht
  pending_waiting _ hi := absurd (hp.symm.trans hi) nofun
  waiting_pending := by simp [hw]

theorem Sound.waiting_of_none (h : session.Sound) (hp : session.pending = none) :
    session.transport.agenda.waiting .emission = [] := by
  refine List.eq_nil_iff_forall_not_mem.mpr fun timer hm => ?_
  exact absurd (hp.symm.trans (h.waiting_pending timer hm)) nofun

theorem Sound.log (h : session.Sound) (event : Event) : (session.log event).Sound :=
  ⟨h.transport.congr rfl rfl, h.pending_waiting, h.waiting_pending⟩

theorem Sound.setGrid (h : session.Sound) (grid : Grid) : (session.setGrid grid).Sound :=
  ⟨⟨h.transport.1, h.transport.2, h.transport.3⟩, h.pending_waiting, h.waiting_pending⟩

theorem Sound.stop (h : session.Sound) : session.stop.Sound :=
  h.of_quiet h.transport.stop rfl h.transport.quiet_stop

theorem pending_cancelPending (session : Session) : session.cancelPending.pending = none := by
  rw [cancelPending]
  split
  next h => exact h
  next => rfl

theorem grid_cancelPending (session : Session) : session.cancelPending.grid = session.grid := by
  rw [cancelPending]
  split <;> rfl

/-- The timer of an announcement is none of a frame. -/
theorem sound_remove {transport : Transport} (h : transport.Sound) {timer : Timer}
    (hm : timer ∈ transport.agenda.waiting .emission) :
    { transport with agenda := transport.agenda.remove timer.id : Transport }.Sound := by
  obtain ⟨hm, hj⟩ := Agenda.mem_waiting.mp hm
  refine ⟨h.wellNumbered.remove timer.id, fun id hi => ?_, h.frame_of_stopped⟩
  have hw : (transport.agenda.remove timer.id).waiting .frame = transport.agenda.waiting .frame :=
    h.wellNumbered.waiting_remove_of_ne hm (by simp [hj])
  exact hw ▸ h.frame_waiting id hi

/-- The announcement that is remembered is the only one. -/
theorem Sound.waiting_remove_pending (h : session.Sound) {id : Nat}
    (hp : session.pending = some id) :
    (session.transport.agenda.remove id).waiting .emission = [] := by
  rw [Agenda.waiting_remove, List.filter_eq_nil_iff]
  intro timer hm
  have hi := Option.some.inj (hp.symm.trans (h.waiting_pending timer hm))
  simp [hi]

theorem Sound.cancelPending (h : session.Sound) : session.cancelPending.Sound := by
  cases hp : session.pending with
  | none => rwa [Session.cancelPending, hp]
  | some id =>
    obtain ⟨timer, hm, rfl⟩ := h.pending_waiting id hp
    rw [Session.cancelPending, hp]
    exact .of_none (sound_remove h.transport hm) rfl (h.waiting_remove_pending hp)

theorem Sound.close (h : session.Sound) : session.close.Sound := by
  have hc := h.stop.cancelPending
  exact ⟨hc.transport, hc.pending_waiting, hc.waiting_pending⟩

/-- A pattern is opened only if it can be read. In any case nothing is left to come. -/
theorem openText_cases (session : Session) (text : List Char) (bars : Int) :
    (∃ error, Grid.tryOfText text bars = .error error ∧
        session.openText text bars = (session.stop.cancelPending, .error (.edit error))) ∨
      ∃ grid, Grid.tryOfText text bars = .ok grid ∧
        session.openText text bars = (session.stop.cancelPending.setGrid grid, .ok grid) := by
  rw [openText]
  cases Grid.tryOfText text bars with
  | error error => exact .inl ⟨error, rfl, rfl⟩
  | ok grid => exact .inr ⟨grid, rfl, rfl⟩

theorem Sound.openText (h : session.Sound) (text : List Char) (bars : Int) :
    (session.openText text bars).1.Sound := by
  rcases openText_cases session text bars with ⟨error, -, he⟩ | ⟨grid, -, he⟩ <;> rw [he]
  · exact h.stop.cancelPending
  · exact h.stop.cancelPending.setGrid grid

theorem Sound.defer (h : session.Sound) (hp : session.pending = none) (due : Float) :
    { session with
      pending := some session.transport.agenda.nextId
      transport.agenda := session.transport.agenda.scheduleAt due .emission : Session }.Sound := by
  have hw : (session.transport.agenda.scheduleAt due .emission).waiting .emission =
      [⟨session.transport.agenda.nextId, due, .emission⟩] := by
    rw [Agenda.waiting_scheduleAt, h.waiting_of_none hp, List.nil_append]
  have hf : (session.transport.agenda.scheduleAt due .emission).waiting .frame =
      session.transport.agenda.waiting .frame := Agenda.waiting_scheduleAt_of_ne _ due (by decide)
  refine ⟨⟨h.transport.wellNumbered.scheduleAt due .emission, ?_, h.transport.frame_of_stopped⟩,
    ?_, ?_⟩
  · exact fun id hi => hf ▸ h.transport.frame_waiting id hi
  · exact fun id hi => ⟨_, hw ▸ List.mem_singleton_self _, Option.some.inj hi⟩
  · exact fun timer hm => congrArg _ (congrArg Timer.id (List.mem_singleton.mp (hw ▸ hm))).symm

/-! What calls the listener. -/

theorem listening_cancelPending (session : Session) :
    session.cancelPending.listening = session.listening := by
  rw [cancelPending]
  split <;> rfl

theorem applyVia_cases (session : Session) (announce : Announcement) :
    (session.applyVia announce).1 = session.cancelPending ∧
        (session.grid = none ∨ session.listening = false) ∨
      ∃ grid, session.grid = some grid ∧
        (session.applyVia announce).1 = (announce session.cancelPending grid).1 := by
  rw [applyVia]
  simp only [grid_cancelPending, listening_cancelPending]
  cases session.grid with
  | none => exact .inl ⟨rfl, .inl rfl⟩
  | some grid =>
    cases session.listening with
    | false => exact .inl ⟨rfl, .inr rfl⟩
    | true =>
      refine .inr ⟨grid, rfl, ?_⟩
      rcases hc : announce session.cancelPending grid with ⟨called, _ | error⟩ <;> simp [hc]

theorem emitVia_cases (session : Session) (announce : Announcement) :
    let due := { session with pending := none }
    session.grid = none ∧ session.emitVia announce = due ∨
      session.emitVia announce = (due.applyVia announce).1 ∨
      session.emitVia announce =
        (due.applyVia announce).1.log (.notice .patternListenerFailed) := by
  intro due
  by_cases hg : session.grid = none
  · exact .inl ⟨hg, if_neg (by simp [isOpen, hg])⟩
  · have ho : due.isOpen = true := Option.isSome_iff_ne_none.mpr hg
    rw [emitVia, if_pos ho]
    rcases due.applyVia announce with ⟨applied, _ | text⟩
    · exact .inr (.inr rfl)
    · exact .inr (.inl rfl)

theorem scheduleVia_cases (session : Session) (announce : Announcement) (looped : Bool) :
    session.scheduleVia announce looped = session.cancelPending.emitVia announce ∨
      ∃ due, session.scheduleVia announce looped =
        { session.cancelPending with
          pending := some session.cancelPending.transport.agenda.nextId
          transport.agenda :=
            session.cancelPending.transport.agenda.scheduleAt due .emission } := by
  rw [scheduleVia]
  split
  · exact .inl rfl
  · exact .inr ⟨_, rfl⟩

theorem editVia_cases (session : Session) (announce : Announcement) (looped : Bool)
    (change : Edit) :
    session.allows change = false ∧ (session.editVia announce looped change).1 = session ∨
      ∃ grid landed edited, session.grid = some grid ∧ grid.tryApply change = .ok landed ∧
        (edited = session.setGrid landed ∨
          ∃ notice, edited = (session.setGrid landed).log (.notice notice)) ∧
        session.editVia announce looped change =
          (edited.scheduleVia announce looped, .ok landed) := by
  rw [editVia, allows]
  cases session.grid with
  | none => exact .inl ⟨rfl, rfl⟩
  | some grid =>
    dsimp only [Option.any_some]
    cases ha : grid.tryApply change with
    | error error => exact .inl ⟨rfl, rfl⟩
    | ok landed =>
      refine .inr ⟨grid, landed, ?_⟩
      cases change.unknownPreset? with
      | none => exact ⟨_, rfl, ha, .inl rfl, rfl⟩
      | some name => exact ⟨_, rfl, ha, .inr ⟨_, rfl⟩, rfl⟩

section Listening

variable {announce : Announcement}
  (ha : ∀ (session : Session) (grid : Grid), session.Sound → (announce session grid).1.Sound)

include ha

theorem Sound.applyVia (h : session.Sound) : (session.applyVia announce).1.Sound := by
  rcases applyVia_cases session announce with ⟨he, -⟩ | ⟨grid, -, he⟩
  · exact he ▸ h.cancelPending
  · exact he ▸ ha _ grid h.cancelPending

theorem Sound.emitVia (h : { session with pending := none : Session }.Sound) :
    (session.emitVia announce).Sound := by
  rcases emitVia_cases session announce with ⟨-, he⟩ | he | he
  · exact he ▸ h
  · exact he ▸ h.applyVia ha
  · exact he ▸ (h.applyVia ha).log _

theorem Sound.scheduleVia (h : session.Sound) (looped : Bool) :
    (session.scheduleVia announce looped).Sound := by
  have hc := h.cancelPending
  have hp := pending_cancelPending session
  rcases scheduleVia_cases session announce looped with he | ⟨due, he⟩
  · exact he ▸ Sound.emitVia ha (.of_none hc.transport rfl (hc.waiting_of_none hp))
  · exact he ▸ hc.defer hp due

theorem Sound.editVia (h : session.Sound) (looped : Bool) (change : Edit) :
    (session.editVia announce looped change).1.Sound := by
  rcases editVia_cases session announce looped change with
    ⟨-, he⟩ | ⟨grid, landed, edited, -, -, rfl | ⟨notice, rfl⟩, he⟩ <;> rw [he]
  · exact h
  · exact (h.setGrid _).scheduleVia ha looped
  · exact ((h.setGrid _).log _).scheduleVia ha looped

end Listening

theorem Acts.sound {looped : Bool} (ha : Acts looped session after) (h : session.Sound) :
    after.Sound := by
  induction ha with
  | done => exact h
  | plan script _ ih => exact ih ⟨h.transport, h.pending_waiting, h.waiting_pending⟩
  | close _ ih => exact ih h.close
  | toggleStep row col _ _ ihc ih =>
    -- The edit may call the listener again, and for that call it is the other hypothesis.
    exact ih (h.editVia (fun session grid hs => ihc session grid (hs.log _)) _ _)

theorem Sound.fireVia {announce : Announcement}
    (ha : ∀ (session : Session) (grid : Grid), session.Sound → (announce session grid).1.Sound)
    (h : session.Sound) (listener : Option Listener) {timer : Timer}
    (hm : timer ∈ session.transport.agenda.timers) :
    (session.fireVia announce listener timer).Sound := by
  rw [Session.fireVia]
  have ht := h.transport.fire listener hm
  cases hj : timer.job with
  | frame => exact h.of_quiet ht rfl (h.transport.quiet_fire listener hm hj)
  | emission =>
    refine Sound.emitVia ha (.of_none ht rfl ?_)
    have hp := h.waiting_pending timer (Agenda.mem_waiting.mpr ⟨hm, hj⟩)
    change (session.transport.fire listener timer).agenda.waiting .emission = []
    rw [Transport.fire_emission listener hj, Transport.waiting_reach, h.waiting_remove_pending hp]

theorem play_cases (session : Session) (looped : Bool) :
    (session.play looped).1 = session ∧ session.grid = none ∨
      ∃ grid, session.grid = some grid ∧ ((session.play looped).1 = session.setGrid grid ∨
        (session.play looped).1 =
          { session.setGrid grid with
            transport := (session.setGrid grid).transport.begin }) := by
  rw [play]
  cases session.grid with
  | none => exact .inl ⟨rfl, rfl⟩
  | some grid =>
    refine .inr ⟨grid, rfl, ?_⟩
    simp only [Transport.run_startM]
    by_cases hs : ((session.setGrid grid).transport.playhead.running || looped) = true
    · exact .inr (by rw [if_pos hs])
    · exact .inl (by rw [if_neg hs])

theorem Sound.play (h : session.Sound) (looped : Bool) : (session.play looped).1.Sound := by
  rcases play_cases session looped with ⟨he, -⟩ | ⟨grid, -, he | he⟩ <;> rw [he]
  · exact h
  · exact h.setGrid grid
  · have hg := h.setGrid grid
    exact hg.of_quiet hg.transport.begin.1 rfl (Transport.quiet_begin _)

theorem Sound.step {operation : Operation} (h : session.Sound)
    (hs : Step session operation after) : after.Sound := by
  obtain ⟨announce, looped, hc, hp, rfl⟩ := hs
  have ha (session : Session) (grid : Grid) (h : session.Sound) : (announce session grid).1.Sound :=
    (hc session grid).sound (h.log _)
  cases operation with
  | openText text bars => exact h.openText text bars
  | close => exact h.close
  | apply => exact h.applyVia ha
  | edit change => exact h.editVia ha looped change
  | play => exact h.play looped
  | stop => exact h.stop
  | fire listener timer => exact h.fireVia ha listener hp.1
  | setEngine engine =>
    exact ⟨⟨h.transport.1, h.transport.2, h.transport.3⟩, h.pending_waiting, h.waiting_pending⟩
  | wait now =>
    exact ⟨⟨⟨h.transport.1.nodup, h.transport.1.id_lt⟩, h.transport.2, h.transport.3⟩,
      h.pending_waiting, h.waiting_pending⟩

theorem make_eq_ok {settings : Settings} {engine : Option (Except String Float)} {now : Float}
    {listening : Bool} {script : List Reaction}
    (made : make settings engine now listening script = .ok session) :
    ∃ transport, Transport.make stepsPerBar settings.tempo settings.frameInterval engine now =
      .ok transport ∧ session = { settings, transport, listening, script } := by
  rw [make] at made
  cases ht : Transport.make stepsPerBar settings.tempo settings.frameInterval engine now with
  | error error => simp [ht, Bind.bind, Except.bind] at made
  | ok transport =>
    rw [ht] at made
    exact ⟨transport, rfl, (Except.ok.inj made).symm⟩

theorem Reached.sound {stirred : Bool} (h : Reached stirred session) : session.Sound := by
  induction h with
  | make made =>
    obtain ⟨transport, ht, rfl⟩ := make_eq_ok made
    refine .of_none (Transport.Sound.make ht).1 rfl ?_
    rw [Transport.make_eq_ok ht]
    rfl
  | step _ hs ih => exact ih.step hs

/-! A listener with a script is one of those that are accounted for. -/

theorem calls_announce (looped : Bool) (script : List Reaction) :
    (announce looped script).Calls looped := by
  induction script with
  | nil => exact fun session grid => .done _
  | cons reaction rest ih =>
    intro session grid
    refine .plan rest ?_
    rw [announce]
    cases reaction.act with
    | none => exact .done _
    | close => exact .close (.done _)
    | toggleStep row col => exact .toggleStep row col ih (.done _)

variable {stirred : Bool}

theorem Reached.openText (h : Reached stirred session) (text : List Char) (bars : Int) :
    Reached false (session.openText text bars).1 := by
  have hs : Step session (.openText text bars) (session.openText text bars).1 :=
    ⟨_, true, calls_announce true session.script, trivial, rfl⟩
  exact h.step hs

theorem Reached.play (h : Reached stirred session) (looped : Bool) :
    Reached stirred (session.play looped).1 := by
  have hs : Step session .play (session.play looped).1 :=
    ⟨_, looped, calls_announce looped session.script, trivial, rfl⟩
  exact h.step hs

theorem Reached.edit (h : Reached stirred session) (looped : Bool) {change : Edit}
    (ha : session.allows change = true) : Reached true (session.edit looped change).1 := by
  have hs : Step session (.edit change) (session.edit looped change).1 :=
    ⟨_, looped, calls_announce looped session.script, trivial, rfl⟩
  have hr := h.step hs
  rwa [Operation.stirs, ha, Bool.or_true] at hr

theorem Reached.apply (h : Reached stirred session) (looped : Bool) :
    Reached true (session.apply looped).1 := by
  have hs : Step session .apply (session.apply looped).1 :=
    ⟨_, looped, calls_announce looped session.script, trivial, rfl⟩
  exact h.step hs

theorem Reached.fire (h : Reached stirred session) (listener : Option Listener) {timer : Timer}
    (hm : timer ∈ session.transport.agenda.timers) :
    Reached stirred (session.fire listener timer) := by
  have hs : Step session (.fire listener timer) (session.fire listener timer) :=
    ⟨_, true, calls_announce true session.script, ⟨hm, rfl⟩, rfl⟩
  exact h.step hs

theorem Reached.runUntil (h : Reached stirred session) (listener : Option Listener) (time : Float)
    (limit : Nat) :
    Reached stirred
      (Agenda.runUntil (·.transport.agenda) (·.fire listener ·) time limit session) := by
  induction limit generalizing session with
  | zero => exact h
  | succ limit ih =>
    rw [Agenda.runUntil]
    split
    next timer hn => exact ih (h.fire listener (Agenda.mem_of_next? hn))
    next => exact h

theorem Reached.advance (h : Reached stirred session) (listener : Option Listener) (limit : Nat)
    (seconds : Float) : Reached stirred (session.advance listener limit seconds) := by
  have hr := h.runUntil listener (session.transport.agenda.now + seconds) limit
  have hs : Step _ (.wait _) (session.advance listener limit seconds) :=
    ⟨_, true, calls_announce true [], trivial, rfl⟩
  exact hr.step hs

end StepSequencer.Session
