import StepSequencer.Pattern.Expansion

/-! The meaning of a tree as plain subdivision: each part of a span in turn, one after another. -/

namespace StepSequencer

mutual

/-- The steps of a tree, read as a division of its span into parts that follow one another. -/
def Token.subdivide : Token → (width : Nat) → List Bool
  | .rest, width => silence width
  | .atomic _, width => onset width
  | .bracketed inner, width => inner.subdivide width
  | .alternation [], width => silence width
  | .alternation (first :: _), width => first.subdivide width
  | .repeated base count, width =>
    if count ≤ 0 then silence width
    else (List.range count.toNat).flatMap fun index =>
      base.subdivide (partWidth width count.toNat index)
  | .sequence [], width => silence width
  | .sequence (first :: more), width =>
    Token.subdivideParts (first :: more) width (more.length + 1) 0

/-- The parts of a span from an index on, each filled by its own element. -/
def Token.subdivideParts : List Token → (width parts index : Nat) → List Bool
  | [], _, _, _ => []
  | element :: more, width, parts, index =>
    element.subdivide (partWidth width parts index) ++
      Token.subdivideParts more width parts (index + 1)

end

end StepSequencer
