import StepSequencer.Proofs.Loading

/-! Settings come from the known keys alone. The other ones are only warned about, in order. -/

namespace StepSequencer

namespace Document

/-- The map with some texts as its keys. -/
def ofFields (fields : List (String × Document)) : Document :=
  .map (fields.map fun field => (.text field.1, field.2))

theorem entry?_cons (first : Scalar × Document) (more : List (Scalar × Document)) (key : String) :
    entry? (first :: more) key =
      if first.1.sameKey (.text key) then some first.2 else entry? more key := by
  unfold entry?
  rw [List.find?_cons]
  cases first.1.sameKey (.text key) <;> rfl

theorem entry?_of_fields (fields : List (String × Document)) (key : String) :
    entry? (fields.map fun field => (.text field.1, field.2)) key = fields.lookup key := by
  induction fields with
  | nil => rfl
  | cons field fields ih =>
    rw [List.map_cons, entry?_cons, ih, List.lookup_cons]
    by_cases h : field.1 = key
    · simp [Scalar.sameKey, h]
    · simp [Scalar.sameKey, h, beq_eq_false_iff_ne.mpr (Ne.symm h)]

end Document

namespace Settings

/-- A warning for each key that is not known, in strictly increasing order of the keys. -/
def WarnsOf (path : String) (fields : List (String × Document)) (warnings : List LoadWarning) :
    Prop :=
  ∃ keys : List String, keys.Pairwise (· < ·) ∧
    (∀ key, key ∈ keys ↔ key ∈ fields.map Prod.fst ∧ key ∉ knownKeys) ∧
      warnings = keys.map fun key => .unknownKey (.text key) path

theorem isKnown_text (key : String) : isKnown (.text key) = decide (key ∈ knownKeys) := by
  rw [Bool.eq_iff_iff]
  simp [isKnown, Scalar.sameKey]

theorem unknownKeys_of_fields (fields : List (String × Document)) :
    unknownKeys (fields.map fun field => (.text field.1, field.2)) =
      ((fields.map Prod.fst).filter (· ∉ knownKeys)).map .text := by
  have hm : (fields.map fun field => ((.text field.1 : Scalar), field.2)).map (·.1) =
      (fields.map Prod.fst).map .text := by
    rw [List.map_map, List.map_map]
    rfl
  rw [unknownKeys, hm, List.filter_map]
  refine congrArg (List.map _) (List.filter_congr fun key _ => ?_)
  simp [isKnown_text]

theorem ofEntries_congr {entries others : List (Scalar × Document)}
    (h : ∀ key ∈ knownKeys, Document.entry? entries key = Document.entry? others key) :
    ofEntries entries = ofEntries others := by
  simp only [knownKeys, List.forall_mem_cons] at h
  obtain ⟨htempo, hdelay, hrate, hpresets, hsounds, -⟩ := h
  simp only [ofEntries, number, catalog, htempo, hdelay, hrate, hpresets, hsounds]

theorem load_ofFields (path : String) (fields : List (String × Document)) :
    load path (some (.ofFields fields)) = (
      (((fields.map Prod.fst).filter (· ∉ knownKeys)).mergeSort (· ≤ ·)).map fun key =>
        .unknownKey (.text key) path,
      ofEntries (fields.map fun field => (.text field.1, field.2))) := by
  rw [Document.ofFields, load_map, unknownKeys_of_fields, sortedKeys?_text]
  dsimp only
  rw [warnOf_of_writable path (List.forall_mem_map.mpr fun key _ => ⟨quoted key, rfl⟩),
    List.map_map]
  rfl

theorem warnsOf_load {path : String} {fields : List (String × Document)}
    (h : (fields.map Prod.fst).Nodup) :
    WarnsOf path fields (load path (some (.ofFields fields))).1 := by
  refine ⟨_, pairwise_lt_mergeSort (h.filter (· ∉ knownKeys)), fun key => ?_, ?_⟩
  · rw [(List.mergeSort_perm _ _).mem_iff, List.mem_filter, decide_eq_true_eq]
  · rw [load_ofFields]

/-- Files with the same known entries load alike, in whatever order these stand and whatever stands
beside them, and every other key is warned of, once and in order, also where the file is refused. -/
theorem load_of_lookup_eq {path : String} {fields others : List (String × Document)}
    (hfields : (fields.map Prod.fst).Nodup) (hothers : (others.map Prod.fst).Nodup)
    (h : ∀ key ∈ knownKeys, fields.lookup key = others.lookup key) :
    (load path (some (.ofFields fields))).2 = (load path (some (.ofFields others))).2 ∧
      WarnsOf path fields (load path (some (.ofFields fields))).1 ∧
        WarnsOf path others (load path (some (.ofFields others))).1 := by
  refine ⟨?_, warnsOf_load hfields, warnsOf_load hothers⟩
  rw [load_ofFields, load_ofFields]
  refine ofEntries_congr fun key hkey => ?_
  rw [Document.entry?_of_fields, Document.entry?_of_fields, h key hkey]

def swung : List (String × Document) :=
  [("swing", .scalar (.int 57)), ("frame_rate", .scalar (.int 0)), ("Bars", .list []),
    ("bpm", .scalar (.text "96"))]

def straight : List (String × Document) :=
  [("bpm", .scalar (.text "96")), ("frame_rate", .scalar (.int 0)), ("10", .scalar .null)]

theorem load_of_lookup_eq_swung :
    (load "drumgrid.yaml" (some (.ofFields swung))).2 =
        (load "drumgrid.yaml" (some (.ofFields straight))).2 ∧
      WarnsOf "drumgrid.yaml" swung (load "drumgrid.yaml" (some (.ofFields swung))).1 ∧
        WarnsOf "drumgrid.yaml" straight (load "drumgrid.yaml" (some (.ofFields straight))).1 :=
  load_of_lookup_eq (by decide) (by decide) (by simp [knownKeys, swung, straight, List.lookup])

end Settings

end StepSequencer
