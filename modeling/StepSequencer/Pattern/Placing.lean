import StepSequencer.Pattern.Expansion

/-! The expansion of a tree as it looks up each place that it writes to. Here a place may be
missing, and a span may have no parts. -/

namespace StepSequencer

/-- Why a place cannot be told. -/
inductive PlaceError where
  | missing (index : Int)
  | noParts
deriving DecidableEq

/-- The item with an index, counted from the end if negative. -/
def itemAt {α : Type} (items : List α) (index : Int) : Except PlaceError α :=
  let offset := if index < 0 then index + items.length else index
  match if offset < 0 then none else items[offset.toNat]? with
  | some item => .ok item
  | none => .error (.missing index)

/-- The items with another one at an index where there is one. -/
def replaceAt {α : Type} (items : List α) (index : Int) (item : α) :
    Except PlaceError (List α) := do
  let _ ← itemAt items index
  return items.set (if index < 0 then index + items.length else index).toNat item

/-- The boundary before a part of a span that has parts. -/
def tryBoundary (index total parts : Int) : Except PlaceError Int :=
  match boundary? index total parts with
  | some place => .ok place
  | none => .error .noParts

/-- Writes steps over a row one by one, up to the end of the row. -/
def tryOverwrite : (row : List Bool) → (start : Int) → (steps : List Bool) →
    Except PlaceError (List Bool)
  | row, _, [] => .ok row
  | row, start, step :: more =>
    if row.length ≤ start then .ok row
    else do
      let written ← replaceAt row start step
      tryOverwrite written (start + 1) more

/-- A row with a hit on the first step of each of several parts. -/
def tryPulses (width parts : Int) : Except PlaceError (List Bool) :=
  (List.range parts.toNat).foldlM (fun row (index : Nat) => do
    let place ← tryBoundary index width parts
    replaceAt row place true) (silence width.toNat)

mutual

def Token.tryExpand : Token → (width : Int) → Except PlaceError (List Bool)
  | .rest, width => .ok (silence width.toNat)
  | .atomic _, width =>
    if 0 < width then replaceAt (silence width.toNat) 0 true else .ok (silence width.toNat)
  | .bracketed inner, width => inner.tryExpand width
  | .alternation [], width => .ok (silence width.toNat)
  | .alternation (first :: _), width => first.tryExpand width
  | .repeated base count, width =>
    if count ≤ 0 ∨ width = 0 then .ok (silence width.toNat)
    else if count ≥ width then do
      let step ← base.tryExpand 1
      return (List.replicate width.toNat step).flatten
    else match base with
    | .atomic _ => tryPulses width count
    | base =>
      (List.range count.toNat).foldlM (fun row (index : Nat) => do
        let start ← tryBoundary index width count
        let stop ← tryBoundary (index + 1) width count
        let steps ← base.tryExpand (stop - start)
        tryOverwrite row start steps) (silence width.toNat)
  | .sequence elements, width =>
    Token.tryExpandParts elements width elements.length 0 (silence width.toNat)

def Token.tryExpandParts : List Token → (width parts index : Int) → List Bool →
    Except PlaceError (List Bool)
  | [], _, _, _, row => .ok row
  | element :: more, width, parts, index, row => do
    let start ← tryBoundary index width parts
    let stop ← tryBoundary (index + 1) width parts
    if stop ≤ start then Token.tryExpandParts more width parts (index + 1) row
    else do
      let steps ← element.tryExpand (stop - start)
      let written ← tryOverwrite row start steps
      Token.tryExpandParts more width parts (index + 1) written

end

end StepSequencer
