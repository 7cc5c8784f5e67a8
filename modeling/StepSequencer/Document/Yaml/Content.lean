import StepSequencer.Document.Yaml.Cell

/-! The content of YAML scalars: plain, quoted, literal and folded ones. -/

namespace StepSequencer.Yaml

/-- What was read, and the cells after it. -/
abbrev Content := List Char × List Cell

def Content.after (before : List Char) (content : Content) : Content :=
  (before ++ content.1, content.2)

/-- What one line break and the further ones after it stand for: single breaks become a space. -/
def folded (more : List Char) : List Char := if more.isEmpty then [' '] else more

/-! Plain scalars. -/

def isFlowMark (c : Char) : Bool := c ∈ [',', '[', ']', '{', '}']

/-- A plain scalar up to the first gap, or to a mark that ends it. -/
def plainRun (flow : Bool) : List Cell → Content
  | [] => ([], [])
  | cell :: rest =>
    let c := cell.char
    let ends := isGap c || (c = ':' && (isGap (next rest) || (flow && isFlowMark (next rest)))) ||
      (flow && (c = '?' || isFlowMark c))
    if ends then ([], cell :: rest) else (plainRun flow rest).after [c]

/-- The line breaks of empty lines, and whether a document boundary follows. -/
def emptyLines (lineStart : Bool) : List Cell → List Char × Bool × List Cell
  | [] => ([], false, [])
  | cell :: rest =>
    if lineStart && isBoundary (cell :: rest) then ([], true, cell :: rest)
    else if cell.char = ' ' then emptyLines false rest
    else if isBreak cell.char then
      let (breaks, bounded, after) := emptyLines true rest
      (cell.char :: breaks, bounded, after)
    else ([], false, cell :: rest)

/-- The gap after a run of a plain scalar. It is empty where the scalar must end. The flag says
whether a line was broken. -/
def plainGap (cells : List Cell) : List Char × Bool × List Cell :=
  let blanks := (cells.takeWhile (·.char = ' ')).map (·.char)
  match cells.dropWhile (·.char = ' ') with
  | cell :: rest =>
    if isBreak cell.char then
      match emptyLines true rest with
      | (_, true, after) => ([], true, after)
      | (breaks, false, after) => (folded breaks, true, after)
    else (blanks, false, cell :: rest)
  | [] => (blanks, false, [])

/-- A plain scalar after a gap, and whether its last gap broke a line. Lines that are not indented
enough do not belong to it. -/
def plainFrom (flow : Bool) (indent : Int) :
    (fuel : Nat) → (gap : List Char) → (broken : Bool) → List Cell → List Char × Bool × List Cell
  | 0, _, broken, cells => ([], broken, cells)
  | fuel + 1, gap, broken, cells =>
    if next cells = '#' then ([], broken, cells)
    else
      let (run, after) := plainRun flow cells
      if run.isEmpty then ([], broken, cells)
      else
        let (gap', broken', rest) := plainGap after
        let outdented := !flow && decide ((columnOf rest : Int) < indent)
        if gap'.isEmpty || next rest = '#' || outdented then
          (gap ++ run, broken', rest)
        else
          let (more, ended, last) := plainFrom flow indent fuel gap' broken' rest
          (gap ++ run ++ more, ended, last)

def plain (flow : Bool) (indent : Int) (cells : List Cell) : List Char × Bool × List Cell :=
  plainFrom flow indent cells.length [] false cells

/-! Quoted scalars. -/

def escaped? (c : Char) : Option Char :=
  match c with
  | '0' => some '\x00'
  | 'b' => some '\x08'
  | 't' | '\t' => some '\t'
  | 'n' => some '\n'
  | 'f' => some '\x0C'
  | 'r' => some '\r'
  | ' ' | '"' | '\\' | '/' => some c
  | _ => none

def escapeWidth? (c : Char) : Option Nat :=
  match c with
  | 'x' => some 2
  | 'u' => some 4
  | 'U' => some 8
  | _ => none

def hexDigit? (c : Char) : Option Nat :=
  if c.isDigit then some (c.toNat - '0'.toNat)
  else if 'a' ≤ c ∧ c ≤ 'f' then some (c.toNat - 'a'.toNat + 10)
  else if 'A' ≤ c ∧ c ≤ 'F' then some (c.toNat - 'A'.toNat + 10)
  else none

def hexNumber? (digits : List Char) : Option Nat :=
  digits.foldlM (fun n c => (hexDigit? c).map (16 * n + ·)) 0

/-- A surrogate is no character either. -/
def charOfCode (code : Nat) : Except Malformed Char :=
  if code.isValidChar then .ok (Char.ofNat code) else .error (.codePoint code)

/-- The line breaks after a line of a quoted scalar, and the blanks around them. -/
def quotedBreaks : (fuel : Nat) → List Cell → Except Malformed Content
  | 0, _ => .error .syntaxError
  | fuel + 1, cells =>
    if isBoundary cells then .error .syntaxError
    else
      match cells.dropWhile fun cell => cell.char = ' ' || cell.char = '\t' with
      | cell :: rest =>
        if isBreak cell.char then do
          return (← quotedBreaks fuel rest).after [cell.char]
        else .ok ([], cell :: rest)
      | [] => .ok ([], [])

def escape (fuel : Nat) (cells : List Cell) : Except Malformed Content :=
  match cells with
  | [] => .error .syntaxError
  | cell :: rest =>
    match escaped? cell.char, escapeWidth? cell.char with
    | some c, _ => .ok ([c], rest)
    | none, some width => do
      let digits := (rest.take width).map (·.char)
      match hexNumber? digits with
      | some code => if digits.length = width then return ([← charOfCode code], rest.drop width)
                     else .error .syntaxError
      | none => .error .syntaxError
    | none, none => if isBreak cell.char then quotedBreaks fuel rest else .error .syntaxError

def quotedFrom (mark : Char) : (fuel : Nat) → List Cell → Except Malformed Content
  | 0, _ => .error .syntaxError
  | _, [] => .error .syntaxError
  | fuel + 1, cell :: rest =>
    let c := cell.char
    if c = mark then
      if mark = '\'' ∧ next rest = mark then do
        return (← quotedFrom mark fuel rest.tail).after [mark]
      else .ok ([], rest)
    else if c = endMark then .error .syntaxError
    else if c = '\\' ∧ mark = '"' then do
      let (text, after) ← escape fuel rest
      return (← quotedFrom mark fuel after).after text
    else if c = ' ' ∨ c = '\t' ∨ isBreak c then
      let isBlank (cell : Cell) : Bool := cell.char = ' ' || cell.char = '\t'
      match (cell :: rest).dropWhile isBlank with
      | [] => .error .syntaxError
      | stop :: after =>
        if isBreak stop.char then do
          let (breaks, after) ← quotedBreaks fuel after
          return (← quotedFrom mark fuel after).after (folded breaks)
        else do
          let blanks := ((cell :: rest).takeWhile isBlank).map (·.char)
          return (← quotedFrom mark fuel (stop :: after)).after blanks
    else do
      return (← quotedFrom mark fuel rest).after [c]

def quotedScalar (cells : List Cell) : Except Malformed Content :=
  quotedFrom (next cells) cells.length cells.tail

/-! Literal and folded scalars. -/

/-- What becomes of the line breaks after the last line. -/
inductive Chomping where
  | strip
  | clip
  | keep
deriving DecidableEq

def chomping? (c : Char) : Option Chomping :=
  if c = '-' then some .strip else if c = '+' then some .keep else none

/-- The header of a literal or folded scalar: its mark, if it has one, blanks and a comment, up to
the first line of content. -/
def blockHeader (cells : List Cell) : Except Malformed (Chomping × List Cell) := do
  let (chomping, rest) := match chomping? (next cells) with
    | some chomping => (chomping, cells.tail)
    | none => (.clip, cells)
  if !(next rest = ' ' || next rest = endMark || isBreak (next rest)) then .error .syntaxError
  else
    let margin := rest.dropWhile (·.char = ' ')
    let ended := if next margin = '#' then
        margin.dropWhile fun cell => !(isBreak cell.char || cell.char = endMark)
      else margin
    if isBreak (next ended) then .ok (chomping, ended.tail)
    else if next ended = endMark then .ok (chomping, ended)
    else .error .syntaxError

/-- The line breaks before the first line of content, and the furthest column among the lines. -/
def leadingBreaks (furthest : Nat) : List Cell → List Char × Nat × List Cell
  | [] => ([], furthest, [])
  | cell :: rest =>
    if cell.char = ' ' then leadingBreaks (max furthest (cell.column + 1)) rest
    else if isBreak cell.char then
      let (breaks, column, after) := leadingBreaks furthest rest
      (cell.char :: breaks, column, after)
    else ([], furthest, cell :: rest)

/-- The line breaks before the next line of content, and the indentation of that line. -/
def blockBreaks (indent : Nat) : List Cell → Content
  | [] => ([], [])
  | cell :: rest =>
    if cell.char = ' ' ∧ cell.column < indent then blockBreaks indent rest
    else if isBreak cell.char then (blockBreaks indent rest).after [cell.char]
    else ([], cell :: rest)

/-- The lines of a literal or folded scalar: the text up to the end of the last line, its line
break, and the line breaks after it. -/
def blockLines (fold : Bool) (indent : Nat) :
    (fuel : Nat) → (breaks : List Char) → List Cell → List Char × List Char × Content
  | 0, breaks, cells => ([], [], breaks, cells)
  | fuel + 1, breaks, cells =>
    if columnOf cells = indent ∧ next cells ≠ endMark then
      let inLine (cell : Cell) : Bool := !(isBreak cell.char || cell.char = endMark)
      let isBlank (c : Char) : Bool := c = ' ' || c = '\t'
      let line := (cells.takeWhile inLine).map (·.char)
      let ended := cells.dropWhile inLine
      let (lineBreak, below) :=
        if isBreak (next ended) then (['\n'], ended.tail) else ([], ended)
      let (breaks', rest) := blockBreaks indent below
      if columnOf rest = indent ∧ next rest ≠ endMark then
        let joint :=
          if fold && lineBreak == ['\n'] && !isBlank (next cells) && !isBlank (next rest) then
            if breaks'.isEmpty then [' '] else []
          else lineBreak
        let (more, last) := blockLines fold indent fuel breaks' rest
        (breaks ++ line ++ joint ++ more, last)
      else (breaks ++ line, lineBreak, breaks', rest)
    else ([], [], breaks, cells)

/-- A literal or folded scalar, from its indicator on, inside a block of an indentation. -/
def blockScalar (fold : Bool) (outer : Int) (cells : List Cell) : Except Malformed Content := do
  let (chomping, first) ← blockHeader cells.tail
  let (breaks, furthest, start) := leadingBreaks 0 first
  let indent := max (outer + 1).toNat (max 1 furthest)
  let (text, lineBreak, trailing, rest) := blockLines fold indent cells.length breaks start
  return match chomping with
  | .strip => (text, rest)
  | .clip => (text ++ lineBreak, rest)
  | .keep => (text ++ lineBreak ++ trailing, rest)

end StepSequencer.Yaml
