import StepSequencer.Grid.Rebuild
import StepSequencer.Proofs.Legible
import StepSequencer.Proofs.Places
import StepSequencer.Proofs.Regeneration

/-! Editing fails at a count that is too long to be read, and at nothing else: in a valid grid every
edit finds what it looks up, and every grid that it rebuilds is valid again. -/

namespace StepSequencer

section Lists

variable {α β σ : Type}

theorem mem_of_mem_modify {items : List α} {index : Nat} {change : α → α} {item : α}
    (h : item ∈ items.modify index change) : item ∈ items ∨ ∃ old ∈ items, item = change old := by
  obtain ⟨place, hp, rfl⟩ := List.mem_iff_getElem.mp h
  rw [List.getElem_modify]
  split
  · exact .inr ⟨_, List.getElem_mem _, rfl⟩
  · exact .inl (List.getElem_mem _)

theorem length_mapM_run (f : α → StateM σ β) (items : List α) (state : σ) :
    ((items.mapM f).run state).1.length = items.length := by
  induction items generalizing state with
  | nil => rfl
  | cons item more ih =>
    rw [List.mapM_cons]
    exact congrArg Nat.succ (ih ((f item).run state).2)

theorem mem_mapM_run {f : α → StateM σ β} {items : List α} {state : σ} {result : β}
    (h : result ∈ ((items.mapM f).run state).1) :
    ∃ item ∈ items, ∃ before, result = ((f item).run before).1 := by
  induction items generalizing state with
  | nil => exact absurd h List.not_mem_nil
  | cons item more ih =>
    rw [List.mapM_cons] at h
    rcases List.mem_cons.mp h with rfl | h
    · exact ⟨item, List.mem_cons_self, state, rfl⟩
    · obtain ⟨other, hm, hr⟩ := ih h
      exact ⟨other, List.mem_cons_of_mem _ hm, hr⟩

end Lists

theorem length_drawSteps (draws : Draws) (sound : String) (stepCount made : Nat) :
    ((drawSteps draws sound stepCount).run made).1.length = stepCount := by
  rw [drawSteps, length_mapM_run, List.length_range]

theorem liftM_ok {α : Type} (result : α) :
    (liftM (.ok result : Except PlaceError α) : Except EditError α) = .ok result := rfl

/-- The digits of a count in one of the voices of a pattern. -/
def PatternNumerals (text digits : List Char) : Prop :=
  ∃ voice ∈ voices text, WritesCount voice digits

theorem legible_pattern_of_length_le {text : List Char} (h : text.length ≤ maxDigits) :
    Legible (PatternNumerals text) := by
  rintro digits ⟨voice, hm, hd⟩
  exact legible_of_length_le ((length_le_of_mem_segments hm).trans h) digits hd

/-- Where commas do not part what a tree spells, the counts of the pattern are those of the tree. -/
theorem patternNumerals_spell_iff {token : Token} (h : token.WellFormed) (hs : token.Shielded)
    {digits : List Char} : PatternNumerals token.spell digits ↔ token.Numerals digits := by
  have hv : voices token.spell = [token.spell] :=
    segments_of_whole (h.whole_spell hs) h.trimmed_spell
  rw [PatternNumerals, hv, ← h.writesCount_spell_iff]
  simp

theorem not_legible_overlong : ¬ Legible (PatternNumerals Token.overlong.spell) := by
  have hs : Token.overlong.Shielded := by
    rw [Token.overlong]
    exact .repeated (.atomic (by decide))
  intro hl
  have hn : Legible (WritesCount Token.overlong.spell) := fun digits hd => hl digits
    ((patternNumerals_spell_iff Token.wellFormed_overlong hs).mpr
      (Token.wellFormed_overlong.writesCount_spell_iff.mp hd))
  exact Token.not_legible_overlong hn

theorem reads_tryLayersOfText (text : List Char) (stepCount : Nat) :
    Reads .unread (PatternNumerals text) (layersOfText text stepCount)
      (tryLayersOfText text stepCount) := by
  refine Reads.mapM fun voice _ => ?_
  refine ((Token.reads_tryRead voice).mapError EditError.unread).bind_ok ?_
  rw [max_eq_left (Int.natCast_nonneg stepCount), Token.placed]
  rfl

/-- The text that an edit reads. -/
def Edit.text? : Edit → Option (List Char)
  | .loadText text => some text
  | .loadPreset name presets => (findPreset? name presets).map (·.pattern.toList)
  | _ => none

def Edit.Numerals (edit : Edit) (digits : List Char) : Prop :=
  ∃ text ∈ edit.text?, PatternNumerals text digits

theorem Edit.numerals_of_text? {edit : Edit} {text : List Char} (h : edit.text? = some text) :
    edit.Numerals = PatternNumerals text := by
  funext digits
  simp [Numerals, h]

theorem Edit.not_numerals {edit : Edit} (h : edit.text? = none) (digits : List Char) :
    ¬ edit.Numerals digits := by
  simp [Numerals, h]

namespace Grid

variable {grid : Grid}

theorem toNat_of_wholeBars {stepCount : Int} (h : wholeBars stepCount = true) :
    (stepCount.toNat : Int) = stepCount := by
  simp only [wholeBars, Bool.and_eq_true, decide_eq_true_eq] at h
  exact Int.toNat_of_nonneg h.1.le

theorem make_eq_ok_iff {layers : List Layer} {stepCount : Int} :
    Grid.make layers stepCount = .ok grid ↔
      grid.Valid ∧ grid.layers = layers ∧ (grid.stepCount : Int) = stepCount := by
  rw [Grid.make]
  constructor
  · intro h
    split at h
    next => contradiction
    next hw =>
      split at h
      next => contradiction
      next hf =>
        obtain rfl := Except.ok.inj h
        rw [Bool.not_eq_true, Bool.not_eq_false'] at hw
        have hn := toNat_of_wholeBars hw
        refine ⟨⟨hn.symm ▸ hw, fun layer hm => ?_⟩, rfl, hn⟩
        simpa using List.find?_eq_none.mp hf layer hm
  · rintro ⟨hv, rfl, rfl⟩
    have hf : grid.layers.find? (·.steps.length != grid.stepCount) = none :=
      List.find?_eq_none.mpr fun layer hm => by simp [hv.length_steps layer hm]
    simp [hv.wholeBars, hf]

theorem Valid.make (h : grid.Valid) : Grid.make grid.layers grid.stepCount = .ok grid :=
  make_eq_ok_iff.mpr ⟨h, rfl, rfl⟩

theorem Valid.rebuild (h : grid.Valid) : rebuild grid.layers grid.stepCount = .ok grid := by
  rw [Grid.rebuild, h.make]
  rfl

theorem Valid.withLayers (h : grid.Valid) {layers : List Layer}
    (hl : ∀ layer ∈ layers, layer.steps.length = grid.stepCount) :
    { grid with layers : Grid }.Valid := ⟨h.wholeBars, hl⟩

theorem changeRow_eq_self {row : Int} {change : Layer → Layer}
    (h : ∀ layer ∈ grid.layers, change layer = layer) : grid.changeRow row change = grid := by
  have hm : grid.layers.modify row.toNat change = grid.layers := by
    refine List.ext_getElem (List.length_modify ..) fun index hi ho => ?_
    rw [List.getElem_modify, h _ (List.getElem_mem ho), ite_self]
  rw [changeRow, hm, ite_self]

theorem Valid.changeRow (h : grid.Valid) (row : Int) {change : Layer → Layer}
    (hc : ∀ layer, (change layer).steps.length = layer.steps.length) :
    (grid.changeRow row change).Valid := by
  rw [Grid.changeRow]
  split
  · exact h
  · refine h.withLayers fun layer hm => ?_
    rcases mem_of_mem_modify hm with ho | ⟨old, ho, rfl⟩
    · exact h.length_steps layer ho
    · rw [hc, h.length_steps old ho]

theorem Valid.loadText (h : grid.Valid) (text : List Char) : (grid.loadText text).Valid :=
  h.withLayers fun _ hm => (mem_layersOfText hm).1

theorem reads_tryLoadText (h : grid.Valid) (text : List Char) :
    Reads .unread (PatternNumerals text) (grid.loadText text) (grid.tryLoadText text) :=
  (reads_tryLayersOfText text grid.stepCount).bind_ok (h.loadText text).rebuild

theorem Valid.randomize (h : grid.Valid) (draws : Draws) : (grid.randomize draws).Valid := by
  refine h.withLayers fun layer hm => ?_
  obtain ⟨old, _, made, rfl⟩ := mem_mapM_run hm
  exact length_drawSteps draws old.sound grid.stepCount made

/-- An edit keeps a grid valid. -/
theorem Valid.apply (h : grid.Valid) (edit : Edit) : (grid.apply edit).Valid := by
  cases edit with
  | toggleStep row col =>
    rw [Grid.apply, toggleStep]
    split
    · exact h
    · exact h.changeRow row fun layer => List.length_modify ..
  | toggleMuted row => exact h.changeRow row fun _ => rfl
  | setMuted row muted => exact h.changeRow row fun _ => rfl
  | removeRow row =>
    rw [Grid.apply, removeRow]
    split
    · exact h
    · exact h.withLayers fun layer hm => h.length_steps layer (List.mem_of_mem_eraseIdx hm)
  | addRow sound =>
    refine h.withLayers fun layer hm => ?_
    rcases List.mem_append.mp hm with hm | hm
    · exact h.length_steps layer hm
    · rw [List.mem_singleton.mp hm, length_silence]
  | resize stepCount =>
    rw [Grid.apply, resize]
    split
    next hw =>
      refine ⟨(toNat_of_wholeBars hw).symm ▸ hw, List.forall_mem_map.mpr fun layer _ => ?_⟩
      rw [List.length_take, List.length_append, length_silence]
      exact Nat.min_eq_left (Nat.le_add_left _ _)
    next => exact h
  | clear => exact h.withLayers (List.forall_mem_map.mpr fun _ _ => length_silence _)
  | randomize draws => exact h.randomize draws
  | loadText text => exact h.loadText text
  | loadPreset name presets =>
    rw [Grid.apply, loadPreset]
    split
    · exact h.loadText _
    · exact h

theorem hasRow_iff {row : Int} : grid.hasRow row = true ↔ 0 ≤ row ∧ row < grid.layers.length := by
  simp [hasRow]

theorem length_le_of_not_hasRow {row : Int} (h : ¬grid.hasRow row = true) (hn : ¬row < 0) :
    grid.layers.length ≤ row.toNat := by
  by_contra hl
  exact h (hasRow_iff.mpr (by omega))

theorem tryChangeRow_eq (h : grid.Valid) (row : Int)
    {tryChange : Layer → Except EditError Layer} {change : Layer → Layer}
    (ht : ∀ layer ∈ grid.layers, tryChange layer = .ok (change layer))
    (hc : ∀ layer, (change layer).steps.length = layer.steps.length) :
    grid.tryChangeRow row tryChange = .ok (grid.changeRow row change) := by
  rw [tryChangeRow]
  split
  next hr =>
    obtain ⟨hn, hl⟩ := hasRow_iff.mp hr
    obtain ⟨index, rfl⟩ := Int.eq_ofNat_of_zero_le hn
    have hi : index < grid.layers.length := by omega
    have hv := h.changeRow index hc
    rw [itemAt_of_lt hi]
    simp only [Bind.bind, Except.bind, liftM_ok, ht _ (List.getElem_mem hi), replaceAt_of_lt hi]
    rw [Grid.changeRow, if_neg (by omega), Int.toNat_natCast, List.modify_eq_set_get _ hi] at hv ⊢
    exact hv.rebuild
  next hr =>
    rw [Grid.changeRow]
    split
    next => rfl
    next hn => rw [List.modify_eq_self (length_le_of_not_hasRow hr hn)]

theorem tryToggleStep_eq (h : grid.Valid) (row col : Int) :
    grid.tryToggleStep row col = .ok (grid.toggleStep row col) := by
  rw [tryToggleStep, toggleStep]
  split
  next hc =>
    simp only [Bool.and_eq_true, decide_eq_true_eq] at hc
    obtain ⟨index, rfl⟩ := Int.eq_ofNat_of_zero_le hc.1
    rw [if_neg (by omega)]
    refine tryChangeRow_eq h row (fun layer hm => ?_) fun _ => List.length_modify ..
    have hi : index < layer.steps.length := by
      rw [h.length_steps layer hm]
      omega
    rw [itemAt_of_lt hi, Int.toNat_natCast, List.modify_eq_set_get _ hi]
    simp only [Bind.bind, Except.bind, replaceAt_of_lt hi]
    rfl
  next hc =>
    split
    next => rfl
    next hn =>
      rw [changeRow_eq_self fun layer hm => ?_]
      have hl : layer.steps.length ≤ col.toNat := by
        rw [h.length_steps layer hm]
        simp only [Bool.and_eq_true, decide_eq_true_eq] at hc
        omega
      rw [List.modify_eq_self hl]

theorem tryRemoveRow_eq (h : grid.Valid) (row : Int) :
    grid.tryApply (.removeRow row) = .ok (grid.removeRow row) := by
  have hv := h.apply (.removeRow row)
  rw [Grid.apply, removeRow] at hv
  rw [removeRow, tryApply]
  split
  next hr =>
    rw [if_neg (by have := hasRow_iff.mp hr; omega), List.eraseIdx_eq_take_drop_succ] at hv ⊢
    exact hv.rebuild
  next hr =>
    split
    next => rfl
    next hn => rw [List.eraseIdx_of_length_le (length_le_of_not_hasRow hr hn)]

theorem tryResize_eq (h : grid.Valid) (stepCount : Int) :
    grid.tryApply (.resize stepCount) = .ok (grid.resize stepCount) := by
  rw [tryApply]
  split
  next hw =>
    have hn : ((grid.resize stepCount).stepCount : Int) = stepCount := by
      rw [resize, if_pos hw]
      exact toNat_of_wholeBars hw
    have hr := (h.apply (.resize stepCount)).rebuild
    rwa [Grid.apply, hn] at hr
  next hw => rw [resize, if_neg hw]

/-- In a valid grid no edit fails, but where it reads a text. -/
theorem reads_tryApply (h : grid.Valid) (edit : Edit) :
    Reads .unread edit.Numerals (grid.apply edit) (grid.tryApply edit) := by
  have hv := h.apply edit
  have hn (ht : edit.text? = none) := edit.not_numerals ht
  cases edit with
  | toggleStep row col => exact .of_eq_ok (tryToggleStep_eq h row col) (hn rfl)
  | toggleMuted row =>
    exact .of_eq_ok (tryChangeRow_eq h row (fun _ _ => rfl) fun _ => rfl) (hn rfl)
  | setMuted row muted =>
    exact .of_eq_ok (tryChangeRow_eq h row (fun _ _ => rfl) fun _ => rfl) (hn rfl)
  | removeRow row => exact .of_eq_ok (tryRemoveRow_eq h row) (hn rfl)
  | addRow sound => exact .of_eq_ok hv.rebuild (hn rfl)
  | resize stepCount => exact .of_eq_ok (tryResize_eq h stepCount) (hn rfl)
  | clear => exact .of_eq_ok hv.rebuild (hn rfl)
  | randomize draws => exact .of_eq_ok hv.rebuild (hn rfl)
  | loadText text =>
    rw [Edit.numerals_of_text? (show _ = some text from rfl)]
    exact reads_tryLoadText h text
  | loadPreset name presets =>
    rw [Grid.apply, loadPreset, tryApply]
    cases hp : findPreset? name presets with
    | none => exact .of_eq_ok rfl (hn (by rw [Edit.text?, hp]; rfl))
    | some preset =>
      rw [Edit.numerals_of_text? (show _ = some preset.pattern.toList by rw [Edit.text?, hp]; rfl)]
      exact reads_tryLoadText h preset.pattern.toList

theorem Valid.run (h : grid.Valid) (edits : List Edit) : (edits.foldl Grid.apply grid).Valid := by
  induction edits generalizing grid with
  | nil => exact h
  | cons edit more ih => exact ih (h.apply edit)

theorem reads_tryRun (h : grid.Valid) (edits : List Edit) :
    Reads .unread (fun digits => ∃ edit ∈ edits, edit.Numerals digits) (edits.foldl apply grid)
      (grid.tryRun edits) :=
  Reads.foldlM Valid h fun _ h edit _ => ⟨reads_tryApply h edit, h.apply edit⟩

theorem tryApply_eq (h : grid.Valid) {edit : Edit} (ht : edit.text? = none) :
    grid.tryApply edit = .ok (grid.apply edit) :=
  (reads_tryApply h edit).eq_ok fun digits hd => absurd hd (edit.not_numerals ht digits)

theorem eq_apply_of_tryApply (h : grid.Valid) {edit : Edit} {landed : Grid}
    (hl : grid.tryApply edit = .ok landed) : landed = grid.apply edit :=
  ((reads_tryApply h edit).eq_ok_iff.mp hl).2.symm

theorem tryRun_eq (h : grid.Valid) {edits : List Edit} (ht : ∀ edit ∈ edits, edit.text? = none) :
    grid.tryRun edits = .ok (edits.foldl apply grid) :=
  (reads_tryRun h edits).eq_ok fun digits ⟨edit, hm, hd⟩ =>
    absurd hd (edit.not_numerals (ht edit hm) digits)

theorem stepCountForBars_eq (bars : Int) :
    stepCountForBars bars = 16 ∨ stepCountForBars bars = 32 := by
  simp only [stepCountForBars, stepsPerBar, maxStepCount]
  split <;> omega

theorem valid_ofText (text : List Char) (bars : Int) : (ofText text bars).Valid := by
  have hw : wholeBars (stepCountForBars bars) = true := by
    rcases stepCountForBars_eq bars with h | h <;> rw [h] <;> decide
  refine ⟨hw, ?_⟩
  rw [ofText]
  dsimp only
  split
  next => exact List.forall_mem_map.mpr fun _ _ => length_silence _
  next => exact fun layer hm => (mem_layersOfText hm).1

theorem reads_tryOfText (text : List Char) (bars : Int) :
    Reads .unread (PatternNumerals text) (ofText text bars) (tryOfText text bars) := by
  refine (reads_tryLayersOfText text (stepCountForBars bars)).bind_ok ?_
  have hr := (valid_ofText text bars).rebuild
  rw [ofText] at hr ⊢
  cases hl : layersOfText text (stepCountForBars bars) with
  | nil =>
    rw [hl] at hr
    exact hr
  | cons first more =>
    rw [hl] at hr
    exact hr

/-- The grids that editing starts from. -/
inductive Initial : Grid → Prop
  | empty : Initial {}
  | make {layers : List Layer} {stepCount : Int} {grid : Grid}
      (made : Grid.make layers stepCount = .ok grid) : Initial grid
  | ofText {text : List Char} {bars : Int} {grid : Grid}
      (opened : tryOfText text bars = .ok grid) : Initial grid

theorem Initial.valid (h : grid.Initial) : grid.Valid := by
  cases h with
  | empty => exact ⟨by decide, by simp⟩
  | make made => exact (make_eq_ok_iff.mp made).1
  | @ofText text bars _ opened =>
    obtain ⟨-, rfl⟩ := (reads_tryOfText text bars).eq_ok_iff.mp opened
    exact valid_ofText text bars

end Grid

end StepSequencer
