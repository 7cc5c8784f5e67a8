import StepSequencer.Proofs.Edits
import Mathlib.Data.List.Forall2

/-! Muted rows keep to themselves. Two grids that differ in nothing but the steps of muted rows are
written alike, and stay so through all edits that unmute none of these rows. -/

namespace StepSequencer

section Lists

open List

variable {α β γ δ σ : Type} {R : α → β → Prop} {items : List α} {others : List β}

theorem forall₂_modify {change : α → α} {changeOther : β → β} (h : Forall₂ R items others)
    (index : Nat) (hc : ∀ item other, items[index]? = some item → R item other →
      R (change item) (changeOther other)) :
    Forall₂ R (items.modify index change) (others.modify index changeOther) := by
  induction h generalizing index with
  | nil => simp
  | cons hr hm ih =>
    cases index with
    | zero => exact .cons (hc _ _ rfl hr) hm
    | succ index => exact .cons hr (ih index hc)

theorem forall₂_eraseIdx (h : Forall₂ R items others) (index : Nat) :
    Forall₂ R (items.eraseIdx index) (others.eraseIdx index) := by
  rw [eraseIdx_eq_take_drop_succ, eraseIdx_eq_take_drop_succ]
  exact rel_append (forall₂_take index h) (forall₂_drop (index + 1) h)

/-- Items that are alike give results that are alike and leave the same state behind. -/
theorem forall₂_mapM_run {P : γ → δ → Prop} {f : α → StateM σ γ} {g : β → StateM σ δ}
    (hc : ∀ item other, R item other → ∀ state, P ((f item).run state).1 ((g other).run state).1 ∧
      ((f item).run state).2 = ((g other).run state).2)
    (h : Forall₂ R items others) (state : σ) :
    Forall₂ P ((items.mapM f).run state).1 ((others.mapM g).run state).1 := by
  induction h generalizing state with
  | nil => exact .nil
  | @cons item other more rest hr _ ih =>
    obtain ⟨hp, hs⟩ := hc item other hr state
    have hm : Forall₂ P ((more.mapM f).run ((f item).run state).2).1
        ((rest.mapM g).run ((g other).run state).2).1 := by
      rw [← hs]
      exact ih _
    rw [mapM_cons, mapM_cons]
    exact .cons hp hm

end Lists

/-- The layers are the same, except for the steps if they are muted. -/
structure Layer.Alike (first second : Layer) : Prop where
  sound : first.sound = second.sound
  muted : first.muted = second.muted
  steps : first.muted = false → first.steps = second.steps

structure Grid.Alike (first second : Grid) : Prop where
  stepCount : first.stepCount = second.stepCount
  layers : List.Forall₂ Layer.Alike first.layers second.layers

/-- The edit makes a muted row heard. -/
def Edit.unmutes (grid : Grid) : Edit → Bool
  | .toggleMuted row | .setMuted row false =>
    0 ≤ row && grid.layers[row.toNat]?.any Layer.muted
  | _ => false

/-- Edits in order, none of which unmutes a row that is muted when its turn comes. -/
def Grid.keepsMuted (grid : Grid) : List Edit → Bool
  | [] => true
  | edit :: more => !edit.unmutes grid && (grid.apply edit).keepsMuted more

namespace Layer

variable {first second : Layer}

theorem Alike.refl (layer : Layer) : Alike layer layer := ⟨rfl, rfl, fun _ => rfl⟩

theorem Alike.eq (h : Alike first second) (hm : first.muted = false) : first = second := by
  cases first
  cases second
  obtain ⟨rfl, rfl, hs⟩ := h
  obtain rfl := hs hm
  rfl

theorem Alike.withSteps (h : Alike first second) (steps : List Bool) :
    Alike { first with steps } { second with steps } := ⟨h.sound, h.muted, fun _ => rfl⟩

theorem Alike.mapSteps (h : Alike first second) (change : List Bool → List Bool) :
    Alike { first with steps := change first.steps } { second with steps := change second.steps } :=
  ⟨h.sound, h.muted, fun hm => congrArg change (h.steps hm)⟩

theorem Alike.withMuted (h : Alike first second) {muted : Bool}
    (hu : muted = false → first.muted = false) :
    Alike { first with muted } { second with muted } :=
  ⟨h.sound, rfl, fun hm => h.steps (hu hm)⟩

end Layer

namespace Grid

variable {first second : Grid}

theorem alike_of_layers {stepCount : Nat} (layers : List Layer) :
    Alike { layers, stepCount } { layers, stepCount } :=
  ⟨rfl, List.forall₂_same.mpr fun layer _ => .refl layer⟩

theorem Alike.map (h : Alike first second) {change : Layer → Layer}
    (hc : ∀ layer other, layer.Alike other → (change layer).Alike (change other)) :
    List.Forall₂ Layer.Alike (first.layers.map change) (second.layers.map change) :=
  List.rel_map (fun layer other => hc layer other) h.layers

theorem Alike.changeRow (h : Alike first second) (row : Int) {change : Layer → Layer}
    (hc : ∀ layer other, 0 ≤ row → first.layers[row.toNat]? = some layer → layer.Alike other →
      (change layer).Alike (change other)) :
    Alike (first.changeRow row change) (second.changeRow row change) := by
  rw [Grid.changeRow, Grid.changeRow]
  split
  · exact h
  next hn =>
    exact ⟨h.stepCount, forall₂_modify h.layers row.toNat fun layer other =>
      hc layer other (Int.not_lt.mp hn)⟩

theorem Alike.toggleStep (h : Alike first second) (row col : Int) :
    Alike (first.toggleStep row col) (second.toggleStep row col) := by
  rw [Grid.toggleStep, Grid.toggleStep]
  split
  · exact h
  · exact h.changeRow row fun _ _ _ _ ha => ha.mapSteps (·.modify col.toNat (!·))

theorem muted_of_not_unmutes {row : Int} {layer : Layer} (hr : 0 ≤ row)
    (hl : first.layers[row.toNat]? = some layer)
    (hu : (decide (0 ≤ row) && first.layers[row.toNat]?.any Layer.muted) = false) :
    layer.muted = false := by
  rwa [decide_eq_true hr, Bool.true_and, hl, Option.any_some] at hu

theorem Alike.toggleMuted (h : Alike first second) {row : Int}
    (hu : Edit.unmutes first (.toggleMuted row) = false) :
    Alike (first.toggleMuted row) (second.toggleMuted row) := by
  refine h.changeRow row fun layer other hr hl ha => ?_
  have hm := muted_of_not_unmutes hr hl hu
  rw [← ha.muted]
  exact ha.withMuted fun _ => hm

theorem Alike.setMuted (h : Alike first second) {row : Int} {muted : Bool}
    (hu : Edit.unmutes first (.setMuted row muted) = false) :
    Alike (first.setMuted row muted) (second.setMuted row muted) := by
  refine h.changeRow row fun layer other hr hl ha => ha.withMuted fun hm => ?_
  subst hm
  exact muted_of_not_unmutes hr hl hu

theorem Alike.removeRow (h : Alike first second) (row : Int) :
    Alike (first.removeRow row) (second.removeRow row) := by
  rw [Grid.removeRow, Grid.removeRow]
  split
  · exact h
  · exact ⟨h.stepCount, forall₂_eraseIdx h.layers row.toNat⟩

theorem Alike.addRow (h : Alike first second) (sound : String) :
    Alike (first.addRow sound) (second.addRow sound) := by
  refine ⟨h.stepCount, List.rel_append h.layers ?_⟩
  rw [h.stepCount]
  exact .cons (.refl _) .nil

theorem Alike.resize (h : Alike first second) (stepCount : Int) :
    Alike (first.resize stepCount) (second.resize stepCount) := by
  rw [Grid.resize, Grid.resize]
  split
  · exact ⟨rfl, h.map fun _ _ ha =>
      ha.mapSteps fun steps => (steps ++ silence stepCount.toNat).take stepCount.toNat⟩
  · exact h

theorem Alike.clear (h : Alike first second) : Alike first.clear second.clear := by
  refine ⟨h.stepCount, ?_⟩
  rw [Grid.clear, Grid.clear, h.stepCount]
  exact h.map fun _ _ ha => ha.withSteps (silence second.stepCount)

/-- A muted row takes as many draws as if it were heard, so the rows after it get the same ones. -/
theorem Alike.randomize (h : Alike first second) (draws : Draws) :
    Alike (first.randomize draws) (second.randomize draws) := by
  refine ⟨h.stepCount, forall₂_mapM_run (fun layer other ha made => ?_) h.layers 0⟩
  have hd : drawSteps draws layer.sound first.stepCount =
      drawSteps draws other.sound second.stepCount := by rw [h.stepCount, ha.sound]
  rw [hd]
  exact ⟨ha.withSteps ((drawSteps draws other.sound second.stepCount).run made).1, rfl⟩

theorem Alike.loadText (h : Alike first second) (text : List Char) :
    Alike (first.loadText text) (second.loadText text) := by
  rw [Grid.loadText, Grid.loadText, h.stepCount]
  exact alike_of_layers _

theorem Alike.apply (h : Alike first second) {edit : Edit} (hu : edit.unmutes first = false) :
    Alike (first.apply edit) (second.apply edit) := by
  cases edit with
  | toggleStep row col => exact h.toggleStep row col
  | toggleMuted row => exact h.toggleMuted hu
  | setMuted row muted => exact h.setMuted hu
  | removeRow row => exact h.removeRow row
  | addRow sound => exact h.addRow sound
  | resize stepCount => exact h.resize stepCount
  | clear => exact h.clear
  | randomize draws => exact h.randomize draws
  | loadText text => exact h.loadText text
  | loadPreset name presets =>
    rw [Grid.apply, Grid.apply, loadPreset, loadPreset]
    split
    · exact h.loadText _
    · exact h

theorem Alike.run (h : Alike first second) {edits : List Edit}
    (hk : first.keepsMuted edits = true) :
    Alike (edits.foldl Grid.apply first) (edits.foldl Grid.apply second) := by
  induction edits generalizing first second with
  | nil => exact h
  | cons edit more ih =>
    simp only [keepsMuted, Bool.and_eq_true, Bool.not_eq_true'] at hk
    exact ih (h.apply hk.1) hk.2

theorem keepsMuted_of_append {edits more : List Edit}
    (h : first.keepsMuted (edits ++ more) = true) : first.keepsMuted edits = true := by
  induction edits generalizing first with
  | nil => rfl
  | cons edit rest ih =>
    simp only [List.cons_append, keepsMuted, Bool.and_eq_true] at h ⊢
    exact ⟨h.1, ih h.2⟩

/-! What is told of a grid is told of the rows that are not muted. -/

theorem filter_unmuted_eq {layers others : List Layer} (h : List.Forall₂ Layer.Alike layers others) :
    layers.filter (!·.muted) = others.filter (!·.muted) := by
  induction h with
  | nil => rfl
  | @cons layer other _ _ ha _ ih =>
    rw [List.filter_cons, List.filter_cons, ← ha.muted, ih]
    cases hm : layer.muted with
    | true => rfl
    | false => rw [ha.eq hm]

theorem filter_audible (layers : List Layer) :
    layers.filter Layer.audible = (layers.filter (!·.muted)).filter (·.steps.any id) := by
  rw [List.filter_filter]
  exact List.filter_congr fun layer _ => Bool.and_comm _ _

theorem Alike.text_eq (h : Alike first second) : first.text = second.text := by
  rw [text, text, filter_audible, filter_audible, filter_unmuted_eq h.layers, h.stepCount]

theorem Alike.hitCount_eq (h : Alike first second) : first.hitCount = second.hitCount := by
  rw [hitCount, hitCount, filter_unmuted_eq h.layers]

/-- What a muted row holds does not get out. Of two grids that differ in nothing but the steps of
muted rows, the text and the number of hits are the same, and they are after each of any edits that
are made to both, as long as no muted row is unmuted. -/
theorem muted_steps_unheard (h : Alike first second) {edits : List Edit}
    (hk : first.keepsMuted edits = true) :
    ∀ made, made <+: edits →
      (made.foldl apply first).text = (made.foldl apply second).text ∧
        (made.foldl apply first).hitCount = (made.foldl apply second).hitCount := by
  rintro made ⟨more, rfl⟩
  have ha := h.run (keepsMuted_of_append hk)
  exact ⟨ha.text_eq, ha.hitCount_eq⟩

/-- The muted row moves up to another place, where it is edited and grows, and the rows differ to the
end. -/
theorem muted_steps_unheard_moved :
    let first : Grid := { layers := [⟨"bd", onset 16, false⟩, ⟨"hh", onset 16, true⟩] }
    let second : Grid :=
      { layers := [⟨"bd", onset 16, false⟩, ⟨"hh", List.replicate 16 true, true⟩] }
    let edits : List Edit := [.toggleStep 1 3, .addRow "cp", .removeRow 0, .resize 32,
      .toggleStep 0 20, .setMuted 1 false, .toggleStep 1 30, .toggleMuted (-1)]
    first.Alike second ∧ first.keepsMuted edits = true ∧
      edits.foldl apply first ≠ edits.foldl apply second ∧
      (edits.foldl apply first).text = (edits.foldl apply second).text ∧
      (edits.foldl apply second).hitCount = 1 := by
  intro first second edits
  have ha : first.Alike second :=
    ⟨rfl, .cons (.refl _) (.cons ⟨rfl, rfl, nofun⟩ .nil)⟩
  have hk : first.keepsMuted edits = true := by decide
  obtain ⟨htext, hcount⟩ := muted_steps_unheard ha hk edits (List.prefix_refl _)
  exact ⟨ha, hk, by decide, htext, hcount.symm.trans (by decide)⟩

end Grid

end StepSequencer
