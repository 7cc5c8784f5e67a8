import StepSequencer.Proofs.Edits

/-! Randomizing takes one draw for each cell, row by row. What a cell gets depends on its own draw
and on the density there, and on nothing else. -/

namespace StepSequencer

/-- Where every item takes the same number of draws, the draws of an item come after those of all
the items before it. -/
theorem run_mapM_of_cost {α β : Type} {f : α → StateM Nat β} {result : α → Nat → β} {cost : Nat}
    (hf : ∀ item made, (f item).run made = (result item made, made + cost)) (items : List α)
    (made : Nat) :
    (items.mapM f).run made = (items.mapIdx fun index item => result item (made + index * cost),
      made + items.length * cost) := by
  induction items generalizing made with
  | nil =>
    rw [List.mapM_nil, List.mapIdx_nil, List.length_nil, Nat.zero_mul]
    rfl
  | cons item more ih =>
    have hc : ((item :: more).mapM f).run made =
        (((f item).run made).1 :: ((more.mapM f).run ((f item).run made).2).1,
          ((more.mapM f).run ((f item).run made).2).2) := by
      rw [List.mapM_cons]
      rfl
    have hn : ∀ index, made + cost + index * cost = made + (index + 1) * cost := by
      intro index
      rw [Nat.succ_mul]
      omega
    simp only [hc, hf, ih, List.mapIdx_cons, List.length_cons, hn, Nat.zero_mul, Nat.add_zero]

theorem run_drawSteps (draws : Draws) (sound : String) (stepCount made : Nat) :
    (drawSteps draws sound stepCount).run made =
      ((List.range stepCount).map fun col =>
        decide (draws (made + col) < hitProbability sound col), made + stepCount) := by
  have hd : ∀ (step made : Nat),
      StateT.run (do return decide ((← draw draws) < hitProbability sound step)) made =
        (decide (draws made < hitProbability sound step), made + 1) := fun _ _ => rfl
  rw [drawSteps, run_mapM_of_cost hd, List.length_range, Nat.mul_one]
  congr 1
  refine List.ext_getElem (by simp) fun col hi hj => ?_
  simp

namespace Grid

/-- The grid with other steps, that are told by their row, its sound and their column. -/
def fill (grid : Grid) (on : (row : Nat) → (sound : String) → (col : Nat) → Bool) : Grid :=
  { grid with layers := grid.layers.mapIdx fun row layer =>
      { layer with steps := (List.range grid.stepCount).map (on row layer.sound) } }

variable {grid : Grid}

theorem run_randomizeM (draws : Draws) (made : Nat) :
    (grid.randomizeM draws).run made =
      (grid.fill fun row sound col =>
        decide (draws (made + row * grid.stepCount + col) < hitProbability sound col),
        made + grid.layers.length * grid.stepCount) := by
  have hl : ∀ (layer : Layer) (made : Nat),
      StateT.run (do
        let steps ← drawSteps draws layer.sound grid.stepCount
        return { layer with steps }) made =
      (({ layer with
          steps := (List.range grid.stepCount).map fun col =>
            decide (draws (made + col) < hitProbability layer.sound col) } : Layer),
        made + grid.stepCount) := by
    intro layer made
    have hs := run_drawSteps draws layer.sound grid.stepCount made
    exact congrArg (fun drawn : List Bool × Nat =>
      (({ layer with steps := drawn.1 } : Layer), drawn.2)) hs
  have hm := run_mapM_of_cost hl grid.layers made
  exact congrArg (fun drawn : List Layer × Nat =>
    (({ grid with layers := drawn.1 } : Grid), drawn.2)) hm

theorem fill_fill (first second : (row : Nat) → (sound : String) → (col : Nat) → Bool) :
    (grid.fill first).fill second = grid.fill second := by
  simp only [fill, List.mapIdx_mapIdx, Function.comp_def]

theorem Valid.fill (h : grid.Valid) (on : (row : Nat) → (sound : String) → (col : Nat) → Bool) :
    (grid.fill on).Valid := by
  refine h.withLayers fun layer hm => ?_
  obtain ⟨row, hr, rfl⟩ := List.mem_mapIdx.mp hm
  simp

theorem randomize_eq_fill (draws : Draws) :
    grid.randomize draws = grid.fill fun row sound col =>
      decide (draws (row * grid.stepCount + col) < hitProbability sound col) := by
  have hr := congrArg Prod.fst (@run_randomizeM grid draws 0)
  simp only [Nat.zero_add] at hr
  exact hr

/-- A valid grid takes as many draws as it has cells, those of muted rows too. A cell has a hit just
if its own draw, counted row by row, is below the density there, and nothing else of the grid is
changed. So neither the steps that were there before nor the draws for other rows matter. -/
theorem randomize_by_cell (h : grid.Valid) (draws : Draws) :
    let drawn := grid.fill fun row sound col =>
      draws (row * grid.stepCount + col) < hitProbability sound col
    (grid.randomizeM draws).run 0 = (drawn, grid.layers.length * grid.stepCount) ∧
    grid.tryApply (.randomize draws) = .ok drawn ∧
    (∀ before, (grid.fill before).tryApply (.randomize draws) = .ok drawn) ∧
    ∀ row (others : Draws),
      (∀ index, row * grid.stepCount ≤ index → index < (row + 1) * grid.stepCount →
        others index = draws index) →
      (grid.randomize others).layers[row]? = (grid.randomize draws).layers[row]? := by
  intro drawn
  refine ⟨?_, ?_, fun before => ?_, fun row others ho => ?_⟩
  · have hr := @run_randomizeM grid draws 0
    simpa only [Nat.zero_add] using hr
  · rw [tryApply_eq h rfl, apply, randomize_eq_fill]
  · rw [tryApply_eq (h.fill before) rfl, apply, randomize_eq_fill, fill_fill]
    rfl
  · rw [randomize_eq_fill, randomize_eq_fill, fill, fill, List.getElem?_mapIdx,
      List.getElem?_mapIdx]
    refine Option.map_congr fun layer _ => ?_
    congr 1
    refine List.map_congr_left fun col hc => ?_
    have hn : col < grid.stepCount := List.mem_range.mp hc
    rw [ho _ (Nat.le_add_right _ _) (by rw [Nat.succ_mul]; omega)]

/-- The second row is muted, and yet it has the draws from the sixteenth on. -/
theorem randomize_by_cell_muted :
    let grid : Grid := { layers := [⟨"bd", onset 16, false⟩, ⟨"hh", silence 16, true⟩] }
    let draws : Draws := fun index => if index < 20 then 0.0 else 0.9
    grid.Valid ∧ (grid.randomizeM draws).run 0 =
      ({ layers := [⟨"bd", List.replicate 16 true, false⟩,
          ⟨"hh", List.replicate 4 true ++ silence 12, true⟩] }, 32) := by
  intro grid draws
  have h : grid.Valid := ⟨by decide, by decide⟩
  exact ⟨h, (randomize_by_cell h draws).1.trans (Prod.ext (by decide +kernel) rfl)⟩

end Grid

end StepSequencer
