import StepSequencer.Document.Yaml.Content

/-! The tokens of a YAML text. Blocks open and close by indentation. A scalar or a bracket may
turn out to be a key when a colon follows it on its line, and gets its key token then. A text that
is malformed has the tokens that are settled before the fault shows. -/

namespace StepSequencer.Yaml

inductive Token where
  | documentStart
  | documentEnd
  | blockListStart
  | blockMapStart
  | blockEnd
  | listOpen
  | listClose
  | mapOpen
  | mapClose
  | comma
  | item
  | key
  | value
  /-- A scalar with its content. Only plain scalars have a type of their own. -/
  | scalar (plain : Bool) (content : List Char)
  /-- The text is malformed, and nothing after this place can be read. -/
  | broken (cause : Malformed)
deriving DecidableEq

/-- A place where a key may have begun. -/
structure Candidate where
  /-- The number of tokens before it. -/
  tokens : Nat
  /-- The block can only go on if it is a key. -/
  required : Bool
  index : Nat
  line : Nat
  column : Nat

/-- A text that has been read in part. -/
structure Reader where
  rest : List Cell
  tokens : Array Token := #[]
  /-- The number of open brackets. -/
  depth : Nat := 0
  /-- The column of the block that is open. -/
  indent : Int := -1
  /-- The columns of the blocks around it, the innermost first. -/
  outer : List Int := []
  /-- A key, or an item of a block list, may begin here. -/
  keyAllowed : Bool := true
  /-- The candidate at each depth, if there is one, the innermost depth first. -/
  candidates : List (Nat × Candidate) := []

namespace Reader

def push (reader : Reader) (token : Token) : Reader :=
  { reader with tokens := reader.tokens.push token }

def take (reader : Reader) (count : Nat) (token : Token) : Reader :=
  { reader.push token with rest := reader.rest.drop count }

def allowKey (reader : Reader) (keyAllowed : Bool) : Reader := { reader with keyAllowed }

/-- Brackets are open, so that indentation does not count. -/
def inFlow (reader : Reader) : Bool := 0 < reader.depth

/-- Closes the blocks that stand further to the right than a column. -/
def closeBlocks (column : Int) : List Int → Reader → Reader
  | [], reader => reader
  | indent :: outer, reader =>
    if column < reader.indent then
      closeBlocks column outer { reader.push .blockEnd with indent, outer }
    else reader

def dedent (reader : Reader) (column : Int) : Reader :=
  if reader.inFlow then reader else closeBlocks column reader.outer reader

/-- Opens a block at a column, if none is open there or further to the right. Its token goes in
after a number of tokens. -/
def openBlock (reader : Reader) (column : Nat) (tokens : Nat) (start : Token) : Reader :=
  if reader.indent < column then
    { reader with
      tokens := reader.tokens.insertIdxIfInBounds tokens start
      outer := reader.indent :: reader.outer
      indent := column }
  else reader

/-- Gives up the candidate at the present depth, which must not be required. -/
def dropCandidate (reader : Reader) : Except Malformed Reader :=
  if reader.candidates.any fun (depth, key) => depth = reader.depth && key.required then
    .error .syntaxError
  else .ok { reader with candidates := reader.candidates.filter (·.1 ≠ reader.depth) }

def noteCandidate (reader : Reader) : Except Malformed Reader :=
  match reader.rest with
  | cell :: _ =>
    if reader.keyAllowed then do
      let free ← reader.dropCandidate
      let required := !reader.inFlow && reader.indent == cell.column
      return { free with
        candidates := (reader.depth,
          ⟨reader.tokens.size, required, cell.index, cell.line, cell.column⟩) :: free.candidates }
    else .ok reader
  | [] => .ok reader

def isStale (reader : Reader) (key : Candidate) : Bool :=
  match reader.rest with
  | [] => false
  | cell :: _ => key.line ≠ cell.line || 1024 < cell.index - key.index

def dropStale (reader : Reader) : Except Malformed Reader :=
  if reader.candidates.any fun (_, key) => key.required && reader.isStale key then
    .error .syntaxError
  else
    .ok { reader with candidates := reader.candidates.filter fun (_, key) => !reader.isStale key }

/-- The tokens that do not depend on what follows: those before the first candidate. -/
def settled (reader : Reader) : List Token :=
  let live := (reader.candidates.map (·.2)).filter (!reader.isStale ·)
  reader.tokens.toList.take ((live.map (·.tokens)).foldl min reader.tokens.size)

/-- The tokens of a text with a fault in what is left of it. -/
def broken (reader : Reader) (cause : Malformed) : List Token :=
  reader.settled ++ [.broken cause]

/-- The cells after blanks, comments and line breaks, and whether there was a line break. -/
def skipGap (comment broken : Bool) : List Cell → Bool × List Cell
  | [] => (broken, [])
  | cell :: rest =>
    if isBreak cell.char then skipGap false true rest
    else if comment && cell.char ≠ endMark then skipGap true broken rest
    else if cell.char = ' ' then skipGap false broken rest
    else if cell.char = '#' then skipGap true broken rest
    else (broken, cell :: rest)

/-- Goes to the next token. A new line outside brackets may begin with a key. -/
def skip (reader : Reader) : Reader :=
  let (broken, rest) := skipGap false false reader.rest
  { reader with rest, keyAllowed := reader.keyAllowed || (broken && !reader.inFlow) }

def boundary (reader : Reader) : Except Malformed Reader := do
  let free ← (reader.dedent (-1)).dropCandidate
  let token := if next reader.rest = '-' then .documentStart else .documentEnd
  return (free.allowKey false).take 3 token

def openFlow (reader : Reader) (token : Token) : Except Malformed Reader := do
  let noted ← reader.noteCandidate
  return ({ noted with depth := noted.depth + 1 }.allowKey true).take 1 token

def closeFlow (reader : Reader) (token : Token) : Except Malformed Reader := do
  let free ← reader.dropCandidate
  if free.inFlow then return ({ free with depth := free.depth - 1 }.allowKey false).take 1 token
  else .error .syntaxError

def comma (reader : Reader) : Except Malformed Reader := do
  return ((← reader.dropCandidate).allowKey true).take 1 .comma

/-- A mark that opens a block outside brackets, where a key may begin. -/
def blockMark (reader : Reader) (start : Token) : Except Malformed Reader :=
  if reader.inFlow then .ok reader
  else if reader.keyAllowed then
    .ok (reader.openBlock (columnOf reader.rest) reader.tokens.size start)
  else .error .syntaxError

def item (reader : Reader) : Except Malformed Reader := do
  let opened ← reader.blockMark .blockListStart
  return ((← opened.dropCandidate).allowKey true).take 1 .item

def explicitKey (reader : Reader) : Except Malformed Reader := do
  let opened ← reader.blockMark .blockMapStart
  return ((← opened.dropCandidate).allowKey (!reader.inFlow)).take 1 .key

/-- Reads a colon. The candidate at the present depth is a key, if there is one. -/
def value (reader : Reader) : Except Malformed Reader :=
  match reader.candidates.find? (·.1 = reader.depth) with
  | some (_, key) =>
    let keyed := { reader with
      tokens := reader.tokens.insertIdxIfInBounds key.tokens .key
      candidates := reader.candidates.filter (·.1 ≠ reader.depth) }
    let opened :=
      if keyed.inFlow then keyed else keyed.openBlock key.column key.tokens .blockMapStart
    .ok ((opened.allowKey false).take 1 .value)
  | none => do
    let opened ← reader.blockMark .blockMapStart
    return (opened.allowKey (!reader.inFlow)).take 1 .value

def plainScalar (reader : Reader) : Except Malformed Reader := do
  let noted ← reader.noteCandidate
  let (content, broken, rest) := plain reader.inFlow (reader.indent + 1) reader.rest
  return { (noted.allowKey broken).push (.scalar true content) with rest }

def quotedScalar (reader : Reader) : Except Malformed Reader := do
  let noted ← reader.noteCandidate
  let (content, rest) ← Yaml.quotedScalar reader.rest
  return { (noted.allowKey false).push (.scalar false content) with rest }

def blockScalar (reader : Reader) : Except Malformed Reader := do
  let free ← reader.dropCandidate
  let (content, rest) ← Yaml.blockScalar (next reader.rest = '>') reader.indent reader.rest
  return { (free.allowKey true).push (.scalar false content) with rest }

/-- The characters that no plain scalar begins with, whatever follows. -/
def reserved : List Char :=
  [',', '[', ']', '{', '}', '#', '&', '*', '!', '|', '>', '\'', '"', '%', '@', '\x60']

/-- A plain scalar begins here. A dash, and outside brackets a question mark or a colon, begin one
if no gap follows. -/
def beginsPlain (reader : Reader) : Bool :=
  let c := next reader.rest
  if c = '-' then !isGap (next reader.rest.tail)
  else if c = '?' ∨ c = ':' then !reader.inFlow && !isGap (next reader.rest.tail)
  else !isGap c && !reserved.contains c

/-- Reads one token and what goes with it. At the end mark nothing is left to read. Anchors, tags
and directives are not read. -/
def step (reader : Reader) : Except Malformed (Option Reader) := do
  let fresh ← reader.skip.dropStale
  let ready := fresh.dedent (columnOf fresh.rest)
  let c := next ready.rest
  let gapAfter := isGap (next ready.rest.tail)
  if ready.rest.isEmpty then .error .syntaxError
  else if c = endMark then return none
  else if columnOf ready.rest = 0 ∧ isBoundary ready.rest then ready.boundary
  else if c = '[' then ready.openFlow .listOpen
  else if c = '{' then ready.openFlow .mapOpen
  else if c = ']' then ready.closeFlow .listClose
  else if c = '}' then ready.closeFlow .mapClose
  else if c = ',' then ready.comma
  else if c = '-' ∧ gapAfter then ready.item
  else if c = '?' ∧ (ready.inFlow ∨ gapAfter) then ready.explicitKey
  else if c = ':' ∧ (ready.inFlow ∨ gapAfter) then ready.value
  else if (c = '|' ∨ c = '>') ∧ !ready.inFlow then ready.blockScalar
  else if c = '\'' ∨ c = '"' then ready.quotedScalar
  else if ready.beginsPlain then ready.plainScalar
  else .error .syntaxError

/-- All tokens of a text that has been read to its end: the open blocks are closed. -/
def finish (reader : Reader) : List Token :=
  match (reader.dedent (-1)).dropCandidate with
  | .ok ended => ended.tokens.toList
  | .error cause => reader.broken cause

def run : (fuel : Nat) → Reader → List Token
  | 0, reader => reader.broken .syntaxError
  | fuel + 1, reader =>
    match reader.step with
    | .ok (some more) => run fuel more
    | .ok none => reader.finish
    | .error cause => reader.broken cause

end Reader

def tokens (text : List Char) : List Token :=
  let cells := cells text
  Reader.run (cells.length + 1) { rest := cells }

end StepSequencer.Yaml
