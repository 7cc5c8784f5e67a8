import StepSequencer.Proofs.Edits

/-! Toggles are parity. A list of toggles flips just the cells and mute flags that it toggles an odd
number of times, so neither their order nor a toggle that is made twice matters. -/

namespace StepSequencer

theorem mapIdx_eq_self {α : Type} {items : List α} {change : Nat → α → α}
    (h : ∀ index item, change index item = item) : items.mapIdx change = items := by
  refine List.ext_getElem List.length_mapIdx fun index _ _ => ?_
  rw [List.getElem_mapIdx, h]

/-- A change of the item at an index, which may be out of range or negative. -/
theorem mapIdx_of_int {α : Type} (items : List α) (place : Int) (change : α → α) :
    (items.mapIdx fun index item => if (index : Int) = place then change item else item) =
      if place < 0 then items else items.modify place.toNat change := by
  split
  next hn => exact mapIdx_eq_self fun index _ => if_neg (by omega)
  next hn =>
    refine List.ext_getElem (by simp) fun index _ _ => ?_
    obtain ⟨stop, rfl⟩ := Int.eq_ofNat_of_zero_le (Int.not_lt.mp hn)
    simp only [List.getElem_mapIdx, List.getElem_modify, Int.toNat_natCast, Int.natCast_inj,
      eq_comm]

/-- An edit that flips one cell or one mute flag. -/
inductive Toggle where
  | step (row col : Int)
  | muted (row : Int)
deriving DecidableEq

namespace Toggle

def edit : Toggle → Edit
  | .step row col => .toggleStep row col
  | .muted row => .toggleMuted row

def oddIn (toggle : Toggle) (toggles : List Toggle) : Bool := toggles.count toggle % 2 == 1

theorem oddIn_cons (toggle first : Toggle) (more : List Toggle) :
    toggle.oddIn (first :: more) = (decide (toggle = first) ^^ toggle.oddIn more) := by
  rw [oddIn, oddIn, List.count_cons]
  by_cases h : toggle = first
  · rw [decide_eq_true h, h, beq_self_eq_true, if_pos rfl, Bool.true_xor]
    rcases Nat.mod_two_eq_zero_or_one (more.count first) with hm | hm
    · rw [Nat.succ_mod_two_eq_one_iff.mpr hm, hm]
      rfl
    · rw [Nat.succ_mod_two_eq_zero_iff.mpr hm, hm]
      rfl
  · rw [decide_eq_false h, beq_false_of_ne (Ne.symm h), if_neg nofun, Bool.false_xor, Nat.add_zero]

theorem oddIn_append_reverse (toggle : Toggle) (toggles : List Toggle) :
    toggle.oddIn (toggles ++ toggles.reverse) = false := by
  rw [oddIn, List.count_append, List.count_reverse, ← Nat.two_mul, Nat.mul_mod_right]
  rfl

end Toggle

namespace Grid

/-- Flips cells and mute flags. The rows, their sounds and the number of steps stay. -/
def flip (grid : Grid) (flips : Toggle → Bool) : Grid :=
  { grid with layers := grid.layers.mapIdx fun row layer =>
      { layer with
        steps := layer.steps.mapIdx fun col on => on ^^ flips (.step row col)
        muted := layer.muted ^^ flips (.muted row) } }

variable {grid : Grid}

theorem flip_false : grid.flip (fun _ => false) = grid := by
  simp only [flip, Bool.xor_false, mapIdx_eq_self fun _ _ => rfl]

theorem flip_flip (first second : Toggle → Bool) :
    (grid.flip first).flip second = grid.flip fun toggle => first toggle ^^ second toggle := by
  simp only [flip, List.mapIdx_mapIdx, Function.comp_def, Bool.xor_assoc]

theorem changeRow_eq_mapIdx (row : Int) (change : Layer → Layer) :
    grid.changeRow row change =
      { grid with layers := grid.layers.mapIdx fun index layer =>
          if (index : Int) = row then change layer else layer } := by
  rw [changeRow, mapIdx_of_int]
  split <;> rfl

theorem toggleStep_eq_changeRow (row col : Int) :
    grid.toggleStep row col = grid.changeRow row fun layer =>
      { layer with
        steps := layer.steps.mapIdx fun index on => on ^^ decide ((index : Int) = col) } := by
  have hx : ∀ (index : Nat) (on : Bool),
      (on ^^ decide ((index : Int) = col)) = if (index : Int) = col then !on else on := by
    intro index on
    split <;> simp [*]
  simp only [toggleStep, hx, mapIdx_of_int]
  split
  next => exact (changeRow_eq_self fun _ _ => rfl).symm
  next => rfl

theorem apply_edit (toggle : Toggle) :
    grid.apply toggle.edit = grid.flip fun other => decide (other = toggle) := by
  cases toggle with
  | step row col =>
    rw [Toggle.edit, apply, toggleStep_eq_changeRow, changeRow_eq_mapIdx, flip]
    congr 2
    funext index layer
    split
    next hr => simp [hr]
    next hr => simp [hr, mapIdx_eq_self]
  | muted row =>
    rw [Toggle.edit, apply, toggleMuted, changeRow_eq_mapIdx, flip]
    congr 2
    funext index layer
    split
    next hr => simp [hr, mapIdx_eq_self]
    next hr => simp [hr, mapIdx_eq_self]

theorem foldl_apply_edit (toggles : List Toggle) :
    (toggles.map Toggle.edit).foldl apply grid = grid.flip (·.oddIn toggles) := by
  induction toggles generalizing grid with
  | nil => exact flip_false.symm
  | cons toggle more ih =>
    rw [List.map_cons, List.foldl_cons, ih, apply_edit, flip_flip]
    simp only [Toggle.oddIn_cons]

/-- Toggles never fail, and together they flip just the cells and mute flags that are toggled an odd
number of times. In any other order they come to the same grid, and in reverse they undo what they
did. -/
theorem toggles_parity (h : grid.Valid) (toggles : List Toggle) :
    grid.tryRun (toggles.map Toggle.edit) = .ok (grid.flip (·.oddIn toggles)) ∧
    (∀ others : List Toggle, others.Perm toggles →
      grid.tryRun (others.map Toggle.edit) = grid.tryRun (toggles.map Toggle.edit)) ∧
    grid.tryRun ((toggles ++ toggles.reverse).map Toggle.edit) = .ok grid := by
  have hrun : ∀ made : List Toggle,
      grid.tryRun (made.map Toggle.edit) = .ok (grid.flip (·.oddIn made)) := by
    intro made
    rw [tryRun_eq h (List.forall_mem_map.mpr fun toggle _ => by cases toggle <;> rfl),
      foldl_apply_edit]
  refine ⟨hrun toggles, fun others hp => ?_, ?_⟩
  · simp only [hrun, Toggle.oddIn, hp.count_eq]
  · simp only [hrun, Toggle.oddIn_append_reverse, flip_false]

theorem toggles_parity_wide :
    let grid : Grid := { layers := [{ sound := "bd", steps := onset 16 }] }
    let toggles : List Toggle := [.step 0 15, .step (-1) 3, .muted 0, .step 0 16, .step 0 0,
      .step 0 15, .muted (-1), .step 0 (-1), .muted 0, .step 1 0, .muted 0, .muted 1, .step 0 15]
    let edited : Grid :=
      { layers := [{ sound := "bd", steps := silence 15 ++ [true], muted := true }] }
    grid.Valid ∧ grid.tryRun (toggles.map Toggle.edit) = .ok edited ∧
      grid.tryRun (toggles.reverse.map Toggle.edit) = .ok edited := by
  intro grid toggles edited
  have h : grid.Valid := ⟨by decide, by decide⟩
  obtain ⟨hrun, hperm, -⟩ := toggles_parity h toggles
  have he : grid.tryRun (toggles.map Toggle.edit) = .ok edited := hrun.trans (by decide)
  exact ⟨h, he, (hperm _ toggles.reverse_perm).trans he⟩

end Grid

end StepSequencer
