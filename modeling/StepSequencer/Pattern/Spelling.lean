import StepSequencer.Pattern.Token

/-! The text that spells a tree. -/

namespace StepSequencer

mutual

/-- The text of a tree: a tilde for a rest, brackets around a group or a choice, an asterisk and
digits after a repeated base. -/
def Token.spell : Token → List Char
  | .rest => ['~']
  | .atomic text => text.toList
  | .repeated base count => base.spell ++ '*' :: (toString count).toList
  | .bracketed inner => '[' :: inner.spell ++ [']']
  | .alternation choices => '<' :: Token.spellAll choices ++ ['>']
  | .sequence elements => Token.spellAll elements

/-- The texts of several trees with one space between each two. -/
def Token.spellAll : List Token → List Char
  | [] => []
  | [only] => only.spell
  | first :: second :: more => first.spell ++ ' ' :: Token.spellAll (second :: more)

end

end StepSequencer
