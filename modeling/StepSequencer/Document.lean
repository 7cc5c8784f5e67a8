import StepSequencer.Number.Numeral
import StepSequencer.Number.Shortest
import StepSequencer.Text.Quoted

/-! Documents: trees of lists and maps over scalars, and the text that shows them. -/

namespace StepSequencer

/-- A value that is none of the plain ones, such as a day or a string of bytes. It is known by what
it tells of itself. -/
structure Foreign where
  kind : String
  /-- The place among the values of its kind, if these have an order. -/
  place : Option (List Int)
  number : Option Float
  isVoid : Bool
  shown : Except NumeralError String
  name : Except NumeralError String

inductive Scalar where
  | null
  | bool (value : Bool)
  | int (value : Int)
  | float (value : Float)
  | text (value : String)
  | foreign (value : Foreign)

/-- The values that have an order in common. -/
inductive Family where
  | text
  | number
  | foreign (kind : String)
deriving DecidableEq

inductive Document where
  | scalar (value : Scalar)
  | list (items : List Document)
  | map (entries : List (Scalar × Document))

namespace Scalar

/-- The number that a scalar counts as. Truth values count as one and zero. -/
def number? : Scalar → Option Binary64
  | .bool value => some (.ofInt (if value then 1 else 0))
  | .int value => some (.ofInt value)
  | .float value => some (.ofFloat value)
  | .null | .text _ | .foreign _ => none

/-- Two scalars are the same key of a map: the same text, or numbers of the same size. -/
def sameKey (first second : Scalar) : Bool :=
  match first, second with
  | .null, .null => true
  | .text value, .text other => value == other
  | .foreign value, .foreign other => value.kind == other.kind && value.place == other.place
  | _, _ =>
    match first.number?, second.number? with
    | some .nan, some .nan => true
    | some value, some other => value.compare? other == some .eq
    | _, _ => false

def family? : Scalar → Option Family
  | .text _ => some .text
  | .bool _ | .int _ | .float _ => some .number
  | .foreign value => value.place.map fun _ => .foreign value.kind
  | .null => none

/-- In the order of their family the first does not come after the second: texts go by their
characters, numbers by size. -/
def notAfter (first second : Scalar) : Bool :=
  match first, second with
  | .text value, .text other => value ≤ other
  | .foreign value, .foreign other => !(other.place.getD []).lex (value.place.getD [])
  | _, _ =>
    match first.number?, second.number? with
    | some value, some other => value.compare? other != some .gt
    | _, _ => true

def shown : Scalar → Except NumeralError String
  | .null => .ok "None"
  | .bool value => .ok (if value then "True" else "False")
  | .int value => writeNumeral value
  | .float value => .ok (floatText value)
  | .text value => .ok (quoted value)
  | .foreign value => value.shown

end Scalar

namespace Document

mutual

/-- A document on one line: lists in square brackets, maps in curly ones, texts between marks. -/
def shown : Document → Except NumeralError String
  | .scalar value => value.shown
  | .list items => return "[" ++ ", ".intercalate (← shownItems items) ++ "]"
  | .map entries => return "\x7b" ++ ", ".intercalate (← shownEntries entries) ++ "\x7d"

def shownItems : List Document → Except NumeralError (List String)
  | [] => return []
  | item :: more => return (← item.shown) :: (← shownItems more)

def shownEntries : List (Scalar × Document) → Except NumeralError (List String)
  | [] => return []
  | (key, value) :: more =>
    return ((← key.shown) ++ ": " ++ (← value.shown)) :: (← shownEntries more)

end

/-- A document as a name: a text as it is, anything else as it is shown, unless it has a name of its
own. -/
def name : Document → Except NumeralError String
  | .scalar (.text value) => .ok value
  | .scalar (.foreign value) => value.name
  | document => document.shown

def entry? (entries : List (Scalar × Document)) (key : String) : Option Document :=
  (entries.find? fun entry => entry.1.sameKey (.text key)).map (·.2)

/-- Adds an entry. A key that is there already keeps its place and gets the new value. -/
def put (entries : List (Scalar × Document)) (key : Scalar) (value : Document) :
    List (Scalar × Document) :=
  if entries.any (·.1.sameKey key) then
    entries.map fun entry => if entry.1.sameKey key then (entry.1, value) else entry
  else entries ++ [(key, value)]

def isVoid : Document → Bool
  | .scalar .null | .scalar (.bool false) | .list [] | .map [] => true
  | .scalar (.int value) => value == 0
  | .scalar (.float value) => value == 0.0
  | .scalar (.text value) => value.isEmpty
  | .scalar (.foreign value) => value.isVoid
  | _ => false

end Document

end StepSequencer
