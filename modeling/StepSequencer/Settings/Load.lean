import StepSequencer.Document
import StepSequencer.Number.Reading
import StepSequencer.Settings

/-! Loading settings from a document. -/

namespace StepSequencer

inductive LoadWarning where
  | missingFile (path : String)
  | unknownKey (key : Scalar) (path : String)

def LoadWarning.message : LoadWarning → Except NumeralError String
  | .missingFile path => .ok ("Config file " ++ path ++ " not found. Using defaults.")
  | .unknownKey key path => return "Ignoring unknown config key " ++ (← key.shown) ++ " in " ++ path

inductive LoadError where
  | notMap (path : String)
  /-- Unknown keys that have no common order. -/
  | unorderedKeys
  | notNumber (key shown : String)
  /-- An integer beyond the doubles. -/
  | tooLarge (key : String)
  | pace (error : PaceError)
  | presetsNotList
  | badPreset (shown : String)
  | soundsNotList
  | badSound (shown : String)
  /-- A name or a message has a number in it that cannot be written. -/
  | numeral (error : NumeralError)

def LoadError.message? : LoadError → Option String
  | .notMap path => some ("Config file " ++ path ++ " must contain a mapping")
  | .unorderedKeys | .tooLarge _ => none
  | .notNumber key shown =>
    some ("Config key " ++ quoted key ++ " must be a number, got " ++ shown)
  | .pace error => some error.message
  | .presetsNotList => some "presets must be a list of \x7bname, pattern\x7d entries"
  | .badPreset shown => some ("Invalid preset entry: " ++ shown)
  | .soundsNotList => some "sounds must be a list of \x7bid, label\x7d entries"
  | .badSound shown => some ("Invalid sound entry: " ++ shown)
  | .numeral error => some error.message

instance : MonadLift (Except NumeralError) (Except LoadError) := ⟨Except.mapError .numeral⟩

namespace Settings

def knownKeys : List String := ["bpm", "auto_apply_delay", "frame_rate", "presets", "sounds"]

def isKnown (key : Scalar) : Bool := knownKeys.any fun known => key.sameKey (.text known)

def unknownKeys (entries : List (Scalar × Document)) : List Scalar :=
  (entries.map (·.1)).filter (!isKnown ·)

/-- Keys in increasing order. Keys that are not of one family have no order; a single key needs none.
-/
def sortedKeys? (keys : List Scalar) : Option (List Scalar) :=
  match keys with
  | [] | [_] => some keys
  | first :: _ =>
    if first.family?.isSome && keys.all (·.family? == first.family?) then
      some (keys.mergeSort Scalar.notAfter)
    else none

/-- Refuses a document, with what it shows. -/
def refuse {α : Type} (document : Document) (refusal : String → LoadError) :
    Except LoadError α := do
  let shown ← document.shown
  .error (refusal shown)

/-- The number under a key. Where there is none, or null, the default stands. -/
def number (entries : List (Scalar × Document)) (key : String) (default : Float) :
    Except LoadError Float :=
  let value := (Document.entry? entries key).getD (.scalar .null)
  match value with
  | .scalar .null => .ok default
  | .scalar (.bool value) => .ok (if value then 1.0 else 0.0)
  | .scalar (.int value) => (floatOfInt? value).elim (.error (.tooLarge key)) .ok
  | .scalar (.float value) => .ok value
  | .scalar (.text text) => (readFloat? text.toList).elim (refuse value (.notNumber key)) .ok
  | .scalar (.foreign other) => other.number.elim (refuse value (.notNumber key)) .ok
  | _ => refuse value (.notNumber key)

/-- Every item of a list, each as it is read. -/
def listOf {α : Type} (refusal : LoadError) (read : Document → Except LoadError α) :
    Document → Except LoadError (List α)
  | .list items => items.mapM read
  | _ => .error refusal

def presetOf (entry : Document) : Except LoadError Preset :=
  match entry with
  | .map fields =>
    match Document.entry? fields "name", Document.entry? fields "pattern" with
    | some name, some pattern => return ⟨← name.name, ← pattern.name⟩
    | _, _ => refuse entry .badPreset
  | _ => refuse entry .badPreset

def presetsOf : Document → Except LoadError (List Preset) := listOf .presetsNotList presetOf

/-- A sound has an identifier, which is also its label if it has no other. -/
def soundOf (entry : Document) : Except LoadError SoundOption :=
  match entry with
  | .map fields =>
    match Document.entry? fields "id" with
    | some sound =>
      return ⟨← sound.name, ← ((Document.entry? fields "label").getD sound).name⟩
    | none => refuse entry .badSound
  | _ => refuse entry .badSound

def soundsOf : Document → Except LoadError (List SoundOption) := listOf .soundsNotList soundOf

/-- The catalog under a key. Where there is none, the default stands. -/
def catalog {α : Type} (entries : List (Scalar × Document)) (key : String)
    (read : Document → Except LoadError (List α)) (default : List α) :
    Except LoadError (List α) :=
  (Document.entry? entries key).elim (.ok default) read

def ofEntries (entries : List (Scalar × Document)) : Except LoadError Settings := do
  let plain : Settings := {}
  let tempo ← number entries "bpm" plain.tempo
  let applyDelay ← number entries "auto_apply_delay" plain.applyDelay
  let frameRate ← number entries "frame_rate" plain.frameRate
  let paced ← (Settings.check { plain with tempo, applyDelay, frameRate }).mapError .pace
  let presets ← catalog entries "presets" presetsOf plain.presets
  let sounds ← catalog entries "sounds" soundsOf plain.sounds
  return { paced with presets, sounds }

/-- Warns of keys one after another, up to the first that cannot be written. -/
def warnOf (path : String) : List Scalar → List LoadWarning × Except LoadError Unit
  | [] => ([], .ok ())
  | key :: more =>
    match key.shown with
    | .ok _ =>
      let warned := warnOf path more
      (.unknownKey key path :: warned.1, warned.2)
    | .error error => ([], .error (.numeral error))

/-- The settings of a file that holds a document, with a warning for each key that is not known.
The defaults stand where there is no file, and in a file that holds nothing. -/
def load (path : String) : Option Document → List LoadWarning × Except LoadError Settings
  | none => ([.missingFile path], .ok {})
  | some document =>
    match if document.isVoid then .map [] else document with
    | .map entries =>
      match sortedKeys? (unknownKeys entries) with
      | some keys =>
        let warned := warnOf path keys
        (warned.1, do warned.2; ofEntries entries)
      | none => ([], .error .unorderedKeys)
    | _ => ([], .error (.notMap path))

end Settings

end StepSequencer
