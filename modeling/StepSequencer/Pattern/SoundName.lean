import StepSequencer.Pattern.Token

/-! The sound that a layer of a pattern plays. -/

namespace StepSequencer

/-- The sound of a layer that names none. -/
def defaultSound : String := "bd"

def unbracketed (text : List Char) : List Char :=
  text.map fun c => if weight c = 0 then c else ' '

/-- The text without its counts: each asterisk that a digit follows is left out together with the
digits after it. The flag says whether the text begins inside a count. -/
def withoutCounts : (inCount : Bool) → List Char → List Char
  | _, [] => []
  | inCount, c :: rest =>
    if inCount && isDigit c then withoutCounts true rest
    else if c == '*' && rest.head?.any isDigit then withoutCounts true rest
    else c :: withoutCounts false rest

/-- The first word that is not a rest, brackets and counts left aside. -/
def soundName (text : List Char) : String :=
  match (words (withoutCounts false (unbracketed text))).find? (!isRest ·) with
  | some word => String.ofList word
  | none => defaultSound

end StepSequencer
