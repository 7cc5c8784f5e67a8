import StepSequencer.Playback.Agenda
import Mathlib.Data.List.Nodup

/-! Timers keep apart by their numbers: a new one gets a number that no other has had, so that what
takes one timer off the agenda leaves all others on it. -/

namespace StepSequencer.Agenda

/-- No two timers have the same number, and the next number is a new one. -/
structure WellNumbered (agenda : Agenda) : Prop where
  nodup : (agenda.timers.map Timer.id).Nodup
  id_lt : ∀ timer ∈ agenda.timers, timer.id < agenda.nextId

variable {agenda : Agenda} {job : Job} {timer other : Timer}

theorem mem_waiting : timer ∈ agenda.waiting job ↔ timer ∈ agenda.timers ∧ timer.job = job := by
  simp [waiting]

theorem mem_remove {id : Nat} :
    timer ∈ (agenda.remove id).timers ↔ timer ∈ agenda.timers ∧ timer.id ≠ id := by
  simp [remove]

theorem waiting_scheduleAt (agenda : Agenda) (due : Float) (job : Job) :
    (agenda.scheduleAt due job).waiting job =
      agenda.waiting job ++ [⟨agenda.nextId, due, job⟩] := by
  simp [waiting, scheduleAt]

theorem waiting_scheduleAt_of_ne (agenda : Agenda) (due : Float) {set : Job} (h : set ≠ job) :
    (agenda.scheduleAt due set).waiting job = agenda.waiting job := by
  simp [waiting, scheduleAt, h]

theorem waiting_remove (agenda : Agenda) (id : Nat) (job : Job) :
    (agenda.remove id).waiting job = (agenda.waiting job).filter (·.id != id) := by
  simp only [waiting, remove, List.filter_filter, Bool.and_comm]

namespace WellNumbered

theorem scheduleAt (h : agenda.WellNumbered) (due : Float) (job : Job) :
    (agenda.scheduleAt due job).WellNumbered := by
  constructor
  · have hn : agenda.nextId ∉ agenda.timers.map Timer.id := fun hm => by
      obtain ⟨timer, ht, hi⟩ := List.mem_map.mp hm
      exact absurd hi (Nat.ne_of_lt (h.id_lt timer ht))
    rw [Agenda.scheduleAt, List.map_append, List.map_singleton]
    exact List.nodup_append.mpr ⟨h.nodup, List.nodup_singleton _, by simpa using hn⟩
  · intro timer hm
    rcases List.mem_append.mp hm with hm | hm
    · exact Nat.lt_succ_of_lt (h.id_lt timer hm)
    · rw [List.mem_singleton.mp hm]
      exact Nat.lt_succ_self _

theorem remove (h : agenda.WellNumbered) (id : Nat) : (agenda.remove id).WellNumbered :=
  ⟨h.nodup.sublist (List.filter_sublist.map _),
    fun timer hm => h.id_lt timer (mem_remove.mp hm).1⟩

theorem reach (h : agenda.WellNumbered) (timer : Timer) : (agenda.reach timer).WellNumbered :=
  ⟨(h.remove timer.id).nodup, (h.remove timer.id).id_lt⟩

theorem eq_of_id_eq (h : agenda.WellNumbered) (ht : timer ∈ agenda.timers)
    (ho : other ∈ agenda.timers) (hi : timer.id = other.id) : timer = other :=
  List.inj_on_of_nodup_map h.nodup ht ho hi

theorem length_waiting_remove (h : agenda.WellNumbered) (hm : timer ∈ agenda.waiting job) :
    ((agenda.remove timer.id).waiting job).length + 1 = (agenda.waiting job).length := by
  have hd : (agenda.waiting job).Nodup := h.nodup.of_map.filter _
  have hf : (agenda.waiting job).filter (·.id != timer.id) = (agenda.waiting job).erase timer := by
    rw [hd.erase_eq_filter]
    refine List.filter_congr fun other ho => ?_
    have hi : other.id = timer.id ↔ other = timer :=
      ⟨h.eq_of_id_eq (mem_waiting.mp ho).1 (mem_waiting.mp hm).1, congrArg Timer.id⟩
    simp only [bne, beq_eq_decide, hi]
  rw [waiting_remove, hf, List.length_erase_of_mem hm]
  exact Nat.sub_add_cancel (List.length_pos_of_mem hm)

/-- What takes a timer off the agenda leaves the other jobs on it. -/
theorem waiting_remove_of_ne (h : agenda.WellNumbered) (hm : timer ∈ agenda.timers)
    (hj : timer.job ≠ job) : (agenda.remove timer.id).waiting job = agenda.waiting job := by
  rw [waiting_remove, List.filter_eq_self]
  intro other ho
  obtain ⟨ho, hk⟩ := mem_waiting.mp ho
  have hne : other.id ≠ timer.id := fun hi => hj (h.eq_of_id_eq ho hm hi ▸ hk)
  simpa using hne

end WellNumbered

theorem earliest_eq_or (best : Option Timer) (timer : Timer) :
    Timer.earliest best timer = best ∨ Timer.earliest best timer = some timer := by
  cases best with
  | none => exact .inr rfl
  | some best => by_cases h : timer.before best = true <;> simp [Timer.earliest, h]

theorem foldl_earliest_eq_or (timers : List Timer) (best : Option Timer) :
    timers.foldl Timer.earliest best = best ∨
      ∃ timer ∈ timers, timers.foldl Timer.earliest best = some timer := by
  induction timers generalizing best with
  | nil => exact .inl rfl
  | cons first more ih =>
    rw [List.foldl_cons]
    rcases ih (Timer.earliest best first) with hk | ⟨timer, hm, ht⟩
    · rw [hk]
      exact (earliest_eq_or best first).imp_right fun hf => ⟨first, List.mem_cons_self, hf⟩
    · exact .inr ⟨timer, List.mem_cons_of_mem _ hm, ht⟩

theorem mem_of_next? {time : Float} (h : agenda.next? time = some timer) :
    timer ∈ agenda.timers := by
  rcases foldl_earliest_eq_or _ none with hn | ⟨first, hm, hf⟩
  · exact absurd (hn.symm.trans h) nofun
  · obtain rfl := Option.some.inj (hf.symm.trans h)
    exact (List.mem_filter.mp hm).1

end StepSequencer.Agenda
