import StepSequencer.Proofs.KeyOrder
import StepSequencer.Proofs.LargeIntegers

/-! What a file of settings may hold: which documents are loaded, which are refused with a message,
and which slip through or fail with none. -/

namespace StepSequencer

namespace Settings

variable {ε α β : Type}

/-- An error that says what is wrong with the file. -/
def Refused (outcome : Except LoadError α) : Prop :=
  ∃ error message, outcome = .error error ∧ error.message? = some message

/-- An error that says nothing of the file. -/
def Crashed (outcome : Except LoadError α) : Prop :=
  ∃ error, outcome = .error error ∧ error.message? = none

theorem ok_or_refused_of_not_crashed {outcome : Except LoadError α} (h : ¬Crashed outcome) :
    (∃ value, outcome = .ok value) ∨ Refused outcome := by
  rcases outcome with error | value
  · cases hm : error.message? with
    | none => exact absurd ⟨error, rfl, hm⟩ h
    | some message => exact .inr ⟨error, message, rfl, hm⟩
  · exact .inl ⟨value, rfl⟩

theorem not_refused_ok (value : α) : ¬Refused (.ok value) := by
  rintro ⟨error, message, h, -⟩
  cases h

@[simp]
theorem not_crashed_ok (value : α) : ¬Crashed (.ok value) := by
  rintro ⟨error, h, -⟩
  cases h

@[simp]
theorem crashed_error {error : LoadError} :
    Crashed (.error error : Except LoadError α) ↔ error.message? = none := by
  simp [Crashed]

theorem Crashed.not_refused {outcome : Except LoadError α} (h : Crashed outcome) :
    ¬Refused outcome := by
  obtain ⟨error, rfl, hnone⟩ := h
  rintro ⟨_, message, h, hsome⟩
  cases h
  rw [hnone] at hsome
  cases hsome

theorem ok_bind_iff {first : Except ε α} {next : α → Except ε β} :
    (∃ result, first >>= next = .ok result) ↔
      ∃ value, first = .ok value ∧ ∃ result, next value = .ok result := by
  cases first with
  | error error => simp [bind, Except.bind]
  | ok value => simp [bind, Except.bind]

theorem crashed_bind_iff {first : Except LoadError α} {next : α → Except LoadError β} :
    Crashed (first >>= next) ↔
      Crashed first ∨ ∃ value, first = .ok value ∧ Crashed (next value) := by
  cases first with
  | error error => simp [Crashed, bind, Except.bind]
  | ok value => simp [Crashed, bind, Except.bind]

theorem ok_mapM_iff {read : α → Except ε β} {items : List α} :
    (∃ results, items.mapM read = .ok results) ↔
      ∀ item ∈ items, ∃ result, read item = .ok result := by
  induction items with
  | nil => simp [pure, Except.pure]
  | cons item items ih =>
    rw [List.mapM_cons, ok_bind_iff, List.forall_mem_cons, ← ih]
    simp [ok_bind_iff, pure, Except.pure]

theorem not_crashed_mapM {read : α → Except LoadError β} (items : List α)
    (h : ∀ item, ¬Crashed (read item)) : ¬Crashed (items.mapM read) := by
  induction items with
  | nil => exact not_crashed_ok []
  | cons item items ih =>
    rw [List.mapM_cons, crashed_bind_iff]
    rintro (hc | ⟨result, -, hc⟩)
    · exact h item hc
    · rcases crashed_bind_iff.mp hc with hc | ⟨results, -, hc⟩
      · exact ih hc
      · exact not_crashed_ok _ hc

theorem liftM_eq_ok_iff {outcome : Except NumeralError α} {value : α} :
    (liftM outcome : Except LoadError α) = .ok value ↔ outcome = .ok value := by
  cases outcome <;> simp [liftM, MonadLift.monadLift, monadLift, Except.mapError]

theorem not_crashed_liftM (outcome : Except NumeralError α) :
    ¬Crashed (liftM outcome : Except LoadError α) := by
  cases outcome with
  | error error => exact crashed_error.not.mpr (by simp [LoadError.message?])
  | ok value => exact not_crashed_ok value

theorem refuse_ne_ok (document : Document) (refusal : String → LoadError) (value : α) :
    refuse document refusal ≠ .ok value := by
  rw [refuse]
  cases document.shown <;> nofun

theorem not_crashed_refuse {document : Document} {refusal : String → LoadError}
    (h : ∀ shown, (refusal shown).message? ≠ none) :
    ¬Crashed (refuse document refusal : Except LoadError α) := by
  rw [refuse, crashed_bind_iff]
  rintro (hc | ⟨shown, -, hc⟩)
  · exact not_crashed_liftM document.shown hc
  · exact h shown (crashed_error.mp hc)

/-- There is no number in the text that is too long to be written. -/
def Writable (text : Except NumeralError String) : Prop := ∃ written, text = .ok written

theorem ok_names_iff {first second : Except NumeralError String} {make : String → String → α} :
    (∃ result, (do return make (← first) (← second) : Except LoadError α) = .ok result) ↔
      Writable first ∧ Writable second := by
  simp only [ok_bind_iff, liftM_eq_ok_iff, Writable]
  simp [pure, Except.pure]

theorem not_crashed_names (first second : Except NumeralError String)
    (make : String → String → α) :
    ¬Crashed (do return make (← first) (← second) : Except LoadError α) := by
  rw [crashed_bind_iff]
  rintro (hc | ⟨_, -, hc⟩)
  · exact not_crashed_liftM first hc
  · rcases crashed_bind_iff.mp hc with hc | ⟨_, -, hc⟩
    · exact not_crashed_liftM second hc
    · exact not_crashed_ok _ hc

/-- A field that can serve as a name. -/
def Names (fields : List (Scalar × Document)) (field : String) : Prop :=
  ∃ document, Document.entry? fields field = some document ∧ Writable document.name

def IsPreset : Document → Prop
  | .map fields => Names fields "name" ∧ Names fields "pattern"
  | .scalar _ | .list _ => False

def IsSound : Document → Prop
  | .map fields => Names fields "id" ∧
    ∀ label, Document.entry? fields "label" = some label → Writable label.name
  | .scalar _ | .list _ => False

def IsCatalog (IsEntry : Document → Prop) : Document → Prop
  | .list items => ∀ item ∈ items, IsEntry item
  | .scalar _ | .map _ => False

theorem ok_presetOf_iff (item : Document) :
    (∃ preset, presetOf item = .ok preset) ↔ IsPreset item := by
  rcases item with value | items | fields
  · simp [presetOf, IsPreset, refuse_ne_ok]
  · simp [presetOf, IsPreset, refuse_ne_ok]
  · rw [presetOf, IsPreset, Names, Names]
    cases hn : Document.entry? fields "name" with
    | none => simp [refuse_ne_ok]
    | some name =>
      cases hp : Document.entry? fields "pattern" with
      | none => simp [refuse_ne_ok]
      | some pattern => exact ok_names_iff.trans (by simp)

theorem ok_soundOf_iff (item : Document) : (∃ sound, soundOf item = .ok sound) ↔ IsSound item := by
  rcases item with value | items | fields
  · simp [soundOf, IsSound, refuse_ne_ok]
  · simp [soundOf, IsSound, refuse_ne_ok]
  · rw [soundOf, IsSound, Names]
    cases hi : Document.entry? fields "id" with
    | none => simp [refuse_ne_ok]
    | some sound =>
      refine ok_names_iff.trans ?_
      cases Document.entry? fields "label" <;> simp

theorem not_crashed_presetOf (item : Document) : ¬Crashed (presetOf item) := by
  rw [presetOf.eq_def]
  split
  · split
    · exact not_crashed_names _ _ _
    · exact not_crashed_refuse fun _ => nofun
  · exact not_crashed_refuse fun _ => nofun

theorem not_crashed_soundOf (item : Document) : ¬Crashed (soundOf item) := by
  rw [soundOf.eq_def]
  split
  · split
    · exact not_crashed_names _ _ _
    · exact not_crashed_refuse fun _ => nofun
  · exact not_crashed_refuse fun _ => nofun

theorem ok_listOf_iff {refusal : LoadError} {read : Document → Except LoadError α}
    {IsEntry : Document → Prop} (h : ∀ item, (∃ result, read item = .ok result) ↔ IsEntry item)
    (document : Document) :
    (∃ results, listOf refusal read document = .ok results) ↔ IsCatalog IsEntry document := by
  rcases document with value | items | fields
  · simp [listOf, IsCatalog]
  · exact ok_mapM_iff.trans (forall₂_congr fun item _ => h item)
  · simp [listOf, IsCatalog]

theorem not_crashed_listOf {refusal : LoadError} {read : Document → Except LoadError α}
    (hr : refusal.message? ≠ none) (h : ∀ item, ¬Crashed (read item)) (document : Document) :
    ¬Crashed (listOf refusal read document) := by
  rcases document with value | items | fields
  · exact crashed_error.not.mpr hr
  · exact not_crashed_mapM items h
  · exact crashed_error.not.mpr hr

theorem ok_presetsOf_iff : ∀ document,
    (∃ presets, presetsOf document = .ok presets) ↔ IsCatalog IsPreset document :=
  ok_listOf_iff ok_presetOf_iff

theorem ok_soundsOf_iff : ∀ document,
    (∃ sounds, soundsOf document = .ok sounds) ↔ IsCatalog IsSound document :=
  ok_listOf_iff ok_soundOf_iff

theorem not_crashed_presetsOf : ∀ document, ¬Crashed (presetsOf document) :=
  not_crashed_listOf (by simp [LoadError.message?]) not_crashed_presetOf

theorem not_crashed_soundsOf : ∀ document, ¬Crashed (soundsOf document) :=
  not_crashed_listOf (by simp [LoadError.message?]) not_crashed_soundOf

/-- An integer beyond the doubles stands under a key. -/
def TooLarge (entries : List (Scalar × Document)) (key : String) : Prop :=
  ∃ value, Document.entry? entries key = some (.scalar (.int value)) ∧ leastTooLarge ≤ value.natAbs

theorem crashed_number_iff {entries : List (Scalar × Document)} {key : String} {default : Float} :
    Crashed (number entries key default) ↔ TooLarge entries key := by
  have hr (document : Document) : ¬Crashed (refuse document (.notNumber key) : Except _ Float) :=
    not_crashed_refuse fun _ => nofun
  rw [number, TooLarge]
  rcases Document.entry? entries key with _ | (_ | _ | value | _ | text | other) | _ | _
  case some.scalar.int =>
    cases hv : floatOfInt? value with
    | none => simp [LoadError.message?, hv, floatOfInt?_eq_none_iff.mp hv]
    | some number =>
      have hl : ¬leastTooLarge ≤ value.natAbs := fun hl => by
        rw [floatOfInt?_eq_none_iff.mpr hl] at hv
        cases hv
      simp [hv, hl]
  case some.scalar.text => cases ht : readFloat? text.toList <;> simp [hr, ht]
  case some.scalar.foreign => cases ho : other.number <;> simp [hr, ho]
  all_goals simp [hr]

def CountsAs : Document → Float → Prop
  | .scalar (.bool truth), value => (if truth then 1.0 else 0.0) = value
  | .scalar (.int number), value => floatOfInt? number = some value
  | .scalar (.float number), value => number = value
  | .scalar (.text text), value => readFloat? text.toList = some value
  | .scalar (.foreign other), value => other.number = some value
  | .scalar .null, _ | .list _, _ | .map _, _ => False

/-- The value of a number setting is what its key has, or the default where that is nothing or
null. -/
def Sets (entries : List (Scalar × Document)) (key : String) (default value : Float) : Prop :=
  match Document.entry? entries key with
  | none | some (.scalar .null) => default = value
  | some document => CountsAs document value

theorem elim_eq_ok_iff {found : Option α} {otherwise : Except ε α} {value : α}
    (h : otherwise ≠ .ok value) :
    found.elim otherwise .ok = (.ok value : Except ε α) ↔ found = some value := by
  cases found <;> simp [h]

theorem number_eq_ok_iff {entries : List (Scalar × Document)} {key : String}
    {default value : Float} :
    number entries key default = .ok value ↔ Sets entries key default value := by
  rw [number, Sets]
  rcases Document.entry? entries key with _ | (_ | _ | _ | _ | _ | _) | _ | _ <;>
    simp [CountsAs, elim_eq_ok_iff, refuse_ne_ok]

/-- There is a number under a key, or nothing, so that the default stands. -/
def Readable (entries : List (Scalar × Document)) (key : String) : Prop :=
  ∀ document, Document.entry? entries key = some document →
    document = .scalar .null ∨ ∃ value, CountsAs document value

theorem readable_iff {entries : List (Scalar × Document)} {key : String} (default : Float) :
    Readable entries key ↔ ∃ value, number entries key default = .ok value := by
  simp only [Readable, number_eq_ok_iff, Sets]
  cases Document.entry? entries key with
  | none => simp
  | some document =>
    by_cases hn : document = .scalar .null
    · simp [hn]
    · simp [hn]

theorem ok_check_iff {settings : Settings} :
    (∃ paced, settings.check.mapError LoadError.pace = .ok paced) ↔
      ¬settings.applyDelay < 0.0 ∧ ¬settings.frameRate ≤ 0.0 := by
  rw [check]
  by_cases hd : settings.applyDelay < 0.0
  · simp [hd, Except.mapError]
  · by_cases hr : settings.frameRate ≤ 0.0 <;> simp [hd, hr, Except.mapError]

theorem not_crashed_check (settings : Settings) :
    ¬Crashed (settings.check.mapError LoadError.pace) := by
  rw [check]
  split
  · simp [Except.mapError, LoadError.message?]
  · split <;> simp [Except.mapError, LoadError.message?]

/-- Entries that make settings: a pace that can be kept, and catalogs. -/
structure Usable (entries : List (Scalar × Document)) : Prop where
  paced : ∃ tempo delay rate, Sets entries "bpm" defaultTempo tempo ∧
    Sets entries "auto_apply_delay" 0.15 delay ∧ Sets entries "frame_rate" 60.0 rate ∧
      ¬delay < 0.0 ∧ ¬rate ≤ 0.0
  presets : ∀ document, Document.entry? entries "presets" = some document →
    IsCatalog IsPreset document
  sounds : ∀ document, Document.entry? entries "sounds" = some document → IsCatalog IsSound document

theorem ok_catalog_iff {entries : List (Scalar × Document)} {key : String}
    {read : Document → Except LoadError (List α)} {default : List α} {Usable : Document → Prop}
    (h : ∀ document, (∃ items, read document = .ok items) ↔ Usable document) :
    (∃ items, catalog entries key read default = .ok items) ↔
      ∀ document, Document.entry? entries key = some document → Usable document := by
  rw [catalog]
  cases Document.entry? entries key <;> simp [h]

theorem not_crashed_catalog {entries : List (Scalar × Document)} {key : String}
    {read : Document → Except LoadError (List α)} {default : List α}
    (h : ∀ document, ¬Crashed (read document)) : ¬Crashed (catalog entries key read default) := by
  rw [catalog]
  cases Document.entry? entries key with
  | none => exact not_crashed_ok default
  | some document => exact h document

theorem ok_ofEntries_iff {entries : List (Scalar × Document)} :
    (∃ settings, ofEntries entries = .ok settings) ↔ Usable entries := by
  simp only [ofEntries, ok_bind_iff, number_eq_ok_iff]
  constructor
  · rintro ⟨tempo, ht, delay, hd, rate, hr, paced, hc, presets, hp, sounds, hs, -⟩
    obtain ⟨hdelay, hrate⟩ := ok_check_iff.mp ⟨paced, hc⟩
    exact ⟨⟨tempo, delay, rate, ht, hd, hr, hdelay, hrate⟩,
      (ok_catalog_iff ok_presetsOf_iff).mp ⟨presets, hp⟩,
      (ok_catalog_iff ok_soundsOf_iff).mp ⟨sounds, hs⟩⟩
  · rintro ⟨⟨tempo, delay, rate, ht, hd, hr, hpace⟩, hpresets, hsounds⟩
    let settings : Settings := { tempo, applyDelay := delay, frameRate := rate }
    obtain ⟨paced, hc⟩ := (@ok_check_iff settings).mpr hpace
    obtain ⟨presets, hp⟩ := (ok_catalog_iff ok_presetsOf_iff).mpr hpresets
    obtain ⟨sounds, hs⟩ := (ok_catalog_iff ok_soundsOf_iff).mpr hsounds
    exact ⟨tempo, ht, delay, hd, rate, hr, paced, hc, presets, hp, sounds, hs, _, rfl⟩

def numberKeys : List String := ["bpm", "auto_apply_delay", "frame_rate"]

/-- Reading the numbers under some keys one after another comes upon one that is too large. -/
def Overflows (entries : List (Scalar × Document)) : List String → Prop
  | [] => False
  | key :: more => TooLarge entries key ∨ Readable entries key ∧ Overflows entries more

theorem crashed_ofEntries_iff {entries : List (Scalar × Document)} :
    Crashed (ofEntries entries) ↔ Overflows entries numberKeys := by
  -- Only a number can fail without a message, so the steps that come after the numbers drop out.
  simp only [ofEntries, crashed_bind_iff, crashed_number_iff, not_crashed_check,
    not_crashed_catalog not_crashed_presetsOf, not_crashed_catalog not_crashed_soundsOf, pure,
    Except.pure, not_crashed_ok, and_false, exists_false, or_false]
  simp only [numberKeys, Overflows, exists_and_right, ← readable_iff, and_false, or_false]

theorem ofEntries_nil : ofEntries [] = .ok {} := by
  have hd : ¬(0.15 : Float) < 0.0 := by decide +kernel
  have hr : ¬(60.0 : Float) ≤ 0.0 := by decide +kernel
  have hc : (check {}).mapError LoadError.pace = .ok {} := by
    rw [check, if_neg hd, if_neg hr]
    rfl
  exact congrArg (· >>= fun paced => .ok { paced with }) hc

theorem warnOf_of_writable (path : String) {keys : List Scalar}
    (h : ∀ key ∈ keys, Writable key.shown) :
    warnOf path keys = (keys.map (.unknownKey · path), .ok ()) := by
  induction keys with
  | nil => rfl
  | cons key more ih =>
    obtain ⟨⟨shown, hs⟩, hm⟩ := List.forall_mem_cons.mp h
    rw [warnOf, hs, ih hm]
    rfl

/-- A key that cannot be written breaks the warnings off. -/
theorem length_warnOf_lt (path : String) {keys : List Scalar} {key : Scalar} (hk : key ∈ keys)
    (h : ¬Writable key.shown) : (warnOf path keys).1.length < keys.length := by
  induction keys with
  | nil => exact absurd hk List.not_mem_nil
  | cons first more ih =>
    rw [warnOf]
    cases hs : first.shown with
    | error error => exact Nat.succ_pos _
    | ok shown =>
      rcases List.mem_cons.mp hk with rfl | hk
      · exact absurd ⟨shown, hs⟩ h
      · exact Nat.succ_lt_succ (ih hk)

theorem load_map (path : String) (entries : List (Scalar × Document)) :
    load path (some (.map entries)) =
      match sortedKeys? (unknownKeys entries) with
      | some keys =>
        ((warnOf path keys).1, do (warnOf path keys).2; ofEntries entries)
      | none => ([], .error .unorderedKeys) := by
  -- An empty map is void, but has the same document put in its place.
  cases entries <;> rfl

theorem load_of_isVoid {document : Document} (path : String) (h : document.isVoid = true) :
    load path (some document) = ([], .ok {}) := by
  have hk : sortedKeys? (unknownKeys []) = some [] := rfl
  rw [load, if_pos h]
  simp only [hk, warnOf, ofEntries_nil]
  rfl

theorem refused_load_iff {document : Document} (path : String)
    (hm : ∀ entries, document ≠ .map entries) :
    Refused (load path (some document)).2 ↔ ¬document.isVoid = true := by
  by_cases hv : document.isVoid = true
  · rw [load_of_isVoid path hv]
    exact iff_of_false (not_refused_ok _) (not_not_intro hv)
  · have hl : load path (some document) = ([], .error (.notMap path)) := by
      rw [load, if_neg hv]
      rcases document with value | items | entries
      · rfl
      · rfl
      · exact absurd rfl (hm entries)
    rw [hl]
    exact iff_of_true ⟨_, _, rfl, rfl⟩ hv

/-- The right answer to a document. A void file has the defaults. A map is loaded or refused,
and warned of for each key that is not known. Anything else is refused. -/
def Answered (path : String) (document : Document)
    (answer : List LoadWarning × Except LoadError Settings) : Prop :=
  match document with
  | .scalar .null => answer = ([], .ok {})
  | .map entries =>
    (∃ keys : List Scalar, keys.Perm (unknownKeys entries) ∧
      answer.1 = keys.map (.unknownKey · path)) ∧
      (Usable entries ∧ (∃ settings, answer.2 = .ok settings) ∨
        ¬Usable entries ∧ Refused answer.2)
  | _ => Refused answer.2

theorem ok_or_refused_iff {outcome : Except LoadError α} :
    ((∃ value, outcome = .ok value) ∧ (∃ value, outcome = .ok value) ∨
      ¬(∃ value, outcome = .ok value) ∧ Refused outcome) ↔ ¬Crashed outcome := by
  constructor
  · rintro (⟨-, value, rfl⟩ | ⟨-, h⟩) hc
    · exact not_crashed_ok value hc
    · exact hc.not_refused h
  · intro hc
    rcases ok_or_refused_of_not_crashed hc with h | h
    · exact .inl ⟨h, h⟩
    · refine .inr ⟨?_, h⟩
      rintro ⟨value, rfl⟩
      exact not_refused_ok value h

theorem answered_map_iff (path : String) (entries : List (Scalar × Document)) :
    Answered path (.map entries) (load path (some (.map entries))) ↔
      (unknownKeys entries).Pairwise Scalar.Comparable ∧
        (∀ key ∈ unknownKeys entries, Writable key.shown) ∧ ¬Overflows entries numberKeys := by
  rw [load_map, ← isSome_sortedKeys?, ← crashed_ofEntries_iff]
  cases hk : sortedKeys? (unknownKeys entries) with
  | none =>
    have hc : Crashed (.error .unorderedKeys : Except LoadError Settings) := crashed_error.mpr rfl
    simp [Answered, hc.not_refused]
  | some keys =>
    have hperm := perm_of_sortedKeys? hk
    by_cases hw : ∀ key ∈ unknownKeys entries, Writable key.shown
    · have hkeys : ∀ key ∈ keys, Writable key.shown := fun key hm => hw key (hperm.mem_iff.mp hm)
      simp only [Answered, warnOf_of_writable path hkeys, Option.isSome_some, true_and]
      rw [and_iff_right ⟨keys, hperm, rfl⟩, and_iff_right hw, ← ok_ofEntries_iff]
      exact ok_or_refused_iff
    · refine iff_of_false ?_ fun h => hw h.2.1
      rintro ⟨⟨others, hothers, he⟩, -⟩
      simp only [not_forall] at hw
      obtain ⟨key, hm, hn⟩ := hw
      have hl := length_warnOf_lt path (hperm.mem_iff.mpr hm) hn
      have hlen := congrArg List.length he
      rw [List.length_map, hothers.length_eq, ← hperm.length_eq] at hlen
      exact absurd hlen (Nat.ne_of_lt hl)

/-- A file is answered right just if it does not pass for an empty one, its unknown keys are all of
one family and can be written, and none of its numbers is an integer beyond the doubles. -/
theorem answered_load_iff (path : String) (document : Document) :
    Answered path document (load path (some document)) ↔
      (document.isVoid = true → document = .scalar .null ∨ ∃ entries, document = .map entries) ∧
        ∀ entries, document = .map entries →
          (unknownKeys entries).Pairwise Scalar.Comparable ∧
            (∀ key ∈ unknownKeys entries, Writable key.shown) ∧
              ¬Overflows entries numberKeys := by
  -- Among the scalars null alone has an answer of its own.
  rcases document with value | items | entries
  · have hm : ∀ entries, Document.scalar value ≠ .map entries := by simp
    by_cases hn : value = .null
    · subst hn
      simp [Answered, load_of_isVoid path (show (Document.scalar .null).isVoid = true from rfl)]
    · have ha : Answered path (.scalar value) (load path (some (.scalar value))) =
          Refused (load path (some (.scalar value))).2 := by
        cases value <;> first | rfl | exact absurd rfl hn
      rw [ha, refused_load_iff path hm]
      simp [hn]
  · have hm : ∀ entries, Document.list items ≠ .map entries := by simp
    refine (refused_load_iff path hm).trans ?_
    simp
  · simp [answered_map_iff]

def mixedKeys : List (Scalar × Document) :=
  [(.int 1, .scalar (.text "x")), (.text "a", .scalar (.text "y"))]

def vastTempo : List (Scalar × Document) := [(.text "bpm", .scalar (.int leastTooLarge))]

/-- Keys of two families and a tempo beyond the doubles fail without a word of the file, and an
empty list passes for an empty file. -/
theorem not_answered :
    ¬Answered "drumgrid.yaml" (.map mixedKeys) (load "drumgrid.yaml" (some (.map mixedKeys))) ∧
      ¬Answered "drumgrid.yaml" (.map vastTempo) (load "drumgrid.yaml" (some (.map vastTempo))) ∧
        ¬Answered "drumgrid.yaml" (.list []) (load "drumgrid.yaml" (some (.list []))) := by
  refine ⟨?_, ?_, ?_⟩
  · rw [answered_map_iff]
    rintro ⟨hp, -⟩
    have hk : unknownKeys mixedKeys = [.int 1, .text "a"] := rfl
    simp [hk, Scalar.Comparable, Scalar.family?] at hp
  · rw [answered_map_iff]
    rintro ⟨-, -, hv⟩
    exact hv (.inl ⟨leastTooLarge, rfl, (Int.natAbs_natCast _).ge⟩)
  · exact fun h => (refused_load_iff _ (by simp)).mp h rfl

end Settings

end StepSequencer
