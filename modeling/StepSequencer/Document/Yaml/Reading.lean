import StepSequencer.Document.Yaml.Node
import StepSequencer.Document.Yaml.Plain

/-! Reading a YAML text as a document. Only the command line reads texts: settings are loaded from a
document, however it was made. -/

namespace StepSequencer

namespace Yaml

/-- A scalar that has no value, or a key that is none, and the number of lists and maps around it.
-/
structure Flaw where
  depth : Nat
  cause : Malformed

/-- Both of two results. Of two flaws the one with less around it counts, and the first if neither
has less. -/
def both {α β : Type} (first : Except Flaw α) (second : Except Flaw β) : Except Flaw (α × β) :=
  match first, second with
  | .ok value, .ok other => .ok (value, other)
  | .error flaw, .error other => .error (if other.depth < flaw.depth then other else flaw)
  | .error flaw, .ok _ | .ok _, .error flaw => .error flaw

def enclose {α : Type} (result : Except Flaw α) : Except Flaw α :=
  result.mapError fun flaw => { flaw with depth := flaw.depth + 1 }

/-- The value of a scalar: text, unless it is plain and has another type. -/
def scalarValue (plain : Bool) (content : List Char) : Except Flaw Scalar :=
  if plain then (plainValue content).mapError (⟨0, ·⟩) else .ok (.text (String.ofList content))

/-- A key of a map must be a scalar. An equals sign is a text as a key, and no value. -/
def keyValue : Node → Except Flaw Scalar
  | .scalar _ ['='] => .ok (.text "=")
  | .scalar plain content => scalarValue plain content
  | .list _ | .map _ => .error ⟨0, .syntaxError⟩

mutual

/-- The document of a node. Of entries with the same key the last one counts. -/
def document : Node → Except Flaw Document
  | .scalar plain content => (scalarValue plain content).map .scalar
  | .list items => enclose ((documents items).map .list)
  | .map entries => enclose ((mapEntries entries).map fun entries =>
      .map (entries.foldl (fun before (key, value) => Document.put before key value) []))

def documents : List Node → Except Flaw (List Document)
  | [] => .ok []
  | item :: more => (both (document item) (documents more)).map fun (item, more) => item :: more

def mapEntries : List (Node × Node) → Except Flaw (List (Scalar × Document))
  | [] => .ok []
  | (key, value) :: more =>
    (both (both (keyValue key) (document value)) (mapEntries more)).map fun (entry, more) =>
      entry :: more

end

end Yaml

/-- The document of a YAML text. A text without content is null. Faults of the text as a whole come
before flaws of its values. -/
def Document.ofYaml (text : List Char) : Except Yaml.Malformed Document := do
  match ← Yaml.Node.ofTokens? (Yaml.tokens text) with
  | some node => (Yaml.document node).mapError (·.cause)
  | none => return .scalar .null

end StepSequencer
