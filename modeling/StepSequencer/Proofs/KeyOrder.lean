import Mathlib.Data.List.Pairwise
import StepSequencer.Settings.Load

/-! Keys are put in order if any two of them are of one family, and a lone key always. -/

namespace StepSequencer

/-- Two keys are texts both, or numbers both, or of one kind that has an order. -/
def Scalar.Comparable (first second : Scalar) : Prop :=
  ∃ family, first.family? = some family ∧ second.family? = some family

namespace Settings

theorem sortedKeys?_cons_cons (first second : Scalar) (more : List Scalar) :
    sortedKeys? (first :: second :: more) =
      if first.family?.isSome &&
          (first :: second :: more).all (·.family? == first.family?) then
        some ((first :: second :: more).mergeSort Scalar.notAfter)
      else none := by
  rw [sortedKeys?.eq_def]

theorem isSome_sortedKeys? {keys : List Scalar} :
    (sortedKeys? keys).isSome ↔ keys.Pairwise Scalar.Comparable := by
  rcases keys with _ | ⟨first, _ | ⟨second, more⟩⟩
  · simp [sortedKeys?]
  · simp [sortedKeys?]
  · rw [sortedKeys?_cons_cons, Option.isSome_ite, Bool.and_eq_true, List.all_eq_true]
    constructor
    · rintro ⟨hsome, hall⟩
      obtain ⟨family, hfamily⟩ := Option.isSome_iff_exists.mp hsome
      have hone : ∀ key ∈ first :: second :: more, key.family? = some family := fun key hkey =>
        (eq_of_beq (hall key hkey)).trans hfamily
      exact List.pairwise_of_forall_mem_list fun a ha b hb => ⟨family, hone a ha, hone b hb⟩
    · intro hpair
      have hfirst := (List.pairwise_cons.mp hpair).1
      obtain ⟨family, hfamily, -⟩ := hfirst second List.mem_cons_self
      refine ⟨Option.isSome_of_eq_some hfamily, fun key hkey => beq_iff_eq.mpr ?_⟩
      rcases List.mem_cons.mp hkey with rfl | hkey
      · rfl
      · obtain ⟨other, ho, hother⟩ := hfirst key hkey
        exact hother.trans ho.symm

theorem perm_of_sortedKeys? {keys sorted : List Scalar} (h : sortedKeys? keys = some sorted) :
    sorted.Perm keys := by
  rcases keys with _ | ⟨first, _ | ⟨second, more⟩⟩
  · exact Option.some.inj h ▸ .refl _
  · exact Option.some.inj h ▸ .refl _
  · rw [sortedKeys?_cons_cons] at h
    split at h
    · exact Option.some.inj h ▸ List.mergeSort_perm _ _
    · cases h

theorem sortedKeys?_text (names : List String) :
    sortedKeys? (names.map .text) = some ((names.mergeSort (· ≤ ·)).map .text) := by
  rcases names with _ | ⟨first, _ | ⟨second, more⟩⟩
  · simp [sortedKeys?]
  · simp [sortedKeys?]
  · have hm := @List.map_mergeSort _ _ (fun a b : String => decide (a ≤ b)) Scalar.notAfter
      Scalar.text (first :: second :: more) fun a _ b _ => rfl
    rw [hm, List.map_cons, List.map_cons, sortedKeys?_cons_cons]
    exact if_pos (by simp [Scalar.family?])

/-- Names that are all different come in strictly increasing order. -/
theorem pairwise_lt_mergeSort {names : List String} (h : names.Nodup) :
    (names.mergeSort (· ≤ ·)).Pairwise (· < ·) := by
  have hle := @List.pairwise_mergeSort _ (fun a b : String => decide (a ≤ b))
    (fun a b c hab hbc => decide_eq_true
      (String.le_trans (of_decide_eq_true hab) (of_decide_eq_true hbc)))
    (fun a b => by simpa using String.le_total a b) names
  have hne : (names.mergeSort (· ≤ ·)).Nodup := (List.mergeSort_perm _ _).nodup_iff.mpr h
  refine hle.imp₂ (fun a b hab hab' => ?_) hne
  exact String.not_le.mp fun hba => hab' (String.le_antisymm (of_decide_eq_true hab) hba)

end Settings

end StepSequencer
