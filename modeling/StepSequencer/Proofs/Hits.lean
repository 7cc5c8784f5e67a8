import StepSequencer.Grid.Text
import StepSequencer.Proofs.Subdivision

/-! The hits of a row determine its steps. A row whose hits are evenly spaced is the one that a
sound played so many times fills. -/

namespace StepSequencer

theorem Layer.mem_hits {layer : Layer} {index : Nat} :
    index ∈ layer.hits ↔ layer.steps[index]? = some true := by
  simp only [Layer.hits, List.mem_filterMap, Prod.exists, List.mem_zipIdx_iff_getElem?]
  constructor
  · rintro ⟨on, start, hm, hs⟩
    split at hs
    next ho =>
      rw [← Option.some.inj hs, hm, ho]
    next => simp at hs
  · intro h
    exact ⟨true, index, h, rfl⟩

theorem Layer.length_hits_le (layer : Layer) : layer.hits.length ≤ layer.steps.length := by
  rw [Layer.hits, ← @List.length_zipIdx _ layer.steps 0]
  exact List.length_filterMap_le _ _

/-- Rows of one length with the same hits are the same. -/
theorem row_ext {row other : List Bool} (hl : row.length = other.length)
    (h : ∀ index : Nat, row[index]? = some true ↔ other[index]? = some true) : row = other := by
  refine List.ext_getElem hl fun index hr ho => ?_
  have hi := h index
  simp only [List.getElem?_eq_getElem hr, List.getElem?_eq_getElem ho, Option.some.injEq] at hi
  exact Bool.eq_iff_iff.mpr hi

theorem length_foldl_set (start : Nat → Nat) (row : List Bool) (parts : List Nat) :
    (parts.foldl (fun row part => row.set (start part) true) row).length = row.length := by
  induction parts generalizing row with
  | nil => rfl
  | cons part more ih => rw [List.foldl_cons, ih, List.length_set]

theorem getElem?_foldl_set (start : Nat → Nat) (row : List Bool) (parts : List Nat) (index : Nat) :
    (parts.foldl (fun row part => row.set (start part) true) row)[index]? = some true ↔
      row[index]? = some true ∨ index < row.length ∧ ∃ part ∈ parts, start part = index := by
  induction parts generalizing row with
  | nil => simp
  | cons part more ih =>
    rw [List.foldl_cons, ih, List.getElem?_set, List.length_set]
    by_cases hs : start part = index
    · by_cases hi : index < row.length <;> simp [hs, hi]
    · simp [hs]

theorem length_pulses (width parts : Nat) : (pulses width parts).length = width := by
  rw [pulses, length_foldl_set, length_silence]

theorem getElem?_silence (width index : Nat) : (silence width)[index]? ≠ some true := by
  simp [silence, List.getElem?_replicate]

theorem getElem?_pulses {width parts index : Nat} :
    (pulses width parts)[index]? = some true ↔
      index < width ∧ ∃ part < parts, partStart width parts part = index := by
  rw [pulses, getElem?_foldl_set, length_silence]
  simp [getElem?_silence]

theorem evenlySpaced_iff {hits : List Nat} {width : Nat} :
    evenlySpaced hits width = true ↔
      hits = (List.range hits.length).map (partStart width hits.length) := by
  rw [evenlySpaced, beq_iff_eq]
  constructor
  · intro h
    have ht := congrArg (List.map Int.toNat) h
    rw [List.map_map, List.map_map] at ht
    exact (List.map_id hits).symm.trans ht
  · intro h
    have hc : (List.range hits.length).map (fun index : Nat => boundary index width hits.length) =
        ((List.range hits.length).map (partStart width hits.length)).map Int.ofNat := by
      rw [List.map_map]
      exact List.map_congr_left fun index _ => boundary_natCast width hits.length index
    rw [hc, ← h]

/-- Evenly spaced hits are those of a sound that is played as often as there are hits. -/
theorem Layer.steps_eq_pulses {layer : Layer}
    (h : evenlySpaced layer.hits layer.steps.length = true) :
    layer.steps = pulses layer.steps.length layer.hits.length := by
  refine row_ext (length_pulses _ _).symm fun index => ?_
  rw [getElem?_pulses, ← Layer.mem_hits]
  constructor
  · intro hm
    have hi := (List.getElem?_eq_some_iff.mp (Layer.mem_hits.mp hm)).1
    rw [evenlySpaced_iff.mp h] at hm
    obtain ⟨part, hp, hs⟩ := List.mem_map.mp hm
    exact ⟨hi, part, List.mem_range.mp hp, hs⟩
  · rintro ⟨_, part, hp, hs⟩
    rw [evenlySpaced_iff.mp h]
    exact List.mem_map.mpr ⟨part, List.mem_range.mpr hp, hs⟩

theorem Layer.steps_eq_onset {layer : Layer} (h : layer.hits = [0]) :
    layer.steps = onset layer.steps.length := by
  refine row_ext (length_onset _).symm fun index => ?_
  have ho : (onset layer.steps.length)[index]? = some true ↔
      index = 0 ∧ index < layer.steps.length := by
    cases layer.steps.length with
    | zero => simp [onset]
    | succ width => cases index <;> simp [onset, getElem?_silence]
  rw [ho, ← Layer.mem_hits, h, List.mem_singleton]
  constructor
  · rintro rfl
    have hm : 0 ∈ layer.hits := by simp [h]
    exact ⟨rfl, (List.getElem?_eq_some_iff.mp (Layer.mem_hits.mp hm)).1⟩
  · exact And.left

theorem filterMap_zipIdx_onset (width start : Nat) :
    ((onset (width + 1)).zipIdx start).filterMap
      (fun (on, index) => if on then some index else none) = [start] := by
  have hs : ∀ start, ((silence width).zipIdx start).filterMap
      (fun (on, index) => if on then some index else none) = [] := by
    intro start
    refine List.filterMap_eq_nil_iff.mpr ?_
    rintro ⟨on, index⟩ hm
    obtain rfl : on = false := List.eq_of_mem_replicate (List.fst_mem_of_mem_zipIdx hm)
    rfl
  rw [onset, List.zipIdx_cons, List.filterMap_cons, hs]
  rfl

theorem filterMap_zipIdx_parts {width parts : Nat} (hp : 0 < parts) (hw : parts ≤ width)
    (upTo : Nat) :
    ((List.range upTo).flatMap fun index => onset (partWidth width parts index)).zipIdx.filterMap
      (fun (on, index) => if on then some index else none) =
      (List.range upTo).map (partStart width parts) := by
  induction upTo with
  | zero => rfl
  | succ upTo ih =>
    obtain ⟨more, hm⟩ : ∃ more, partWidth width parts upTo = more + 1 :=
      ⟨_, (Nat.succ_pred_eq_of_pos (partWidth_pos upTo hp hw)).symm⟩
    have hl := @length_flatMap_parts width parts _ hp (fun _ => length_onset _) upTo
    rw [List.range_succ, List.flatMap_append, List.flatMap_singleton, List.zipIdx_append,
      List.filterMap_append, ih, hl, Nat.zero_add, hm, filterMap_zipIdx_onset, List.map_append,
      List.map_singleton]

/-- A row that a sound fills, played no more often than there are steps, has as many hits. -/
theorem Layer.evenlySpaced_of_pulses {layer : Layer} {parts : Nat} (hp : 0 < parts)
    (hw : parts ≤ layer.steps.length) (h : layer.steps = pulses layer.steps.length parts) :
    layer.hits.length = parts ∧ evenlySpaced layer.hits layer.steps.length = true := by
  have hh : layer.hits = (List.range parts).map (partStart layer.steps.length parts) := by
    rw [Layer.hits, ← filterMap_zipIdx_parts hp hw, ← pulses_eq_flatMap hp hw, ← h]
  have hn : layer.hits.length = parts := by rw [hh, List.length_map, List.length_range]
  exact ⟨hn, evenlySpaced_iff.mpr (hn.symm ▸ hh)⟩

theorem pulses_mul (width : Nat) {parts : Nat} (hp : 0 < parts) :
    pulses (parts * (width + 1)) parts = (List.replicate parts (onset (width + 1))).flatten := by
  rw [pulses_eq_flatMap hp (Nat.le_mul_of_pos_right parts (Nat.succ_pos width))]
  simp only [partWidth_mul (width + 1) _ hp, List.flatMap_def, List.map_const', List.length_range]

end StepSequencer
