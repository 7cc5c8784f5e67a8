import StepSequencer.Document.Yaml.Token

/-! The nodes of a YAML text: its tokens put together to lists and maps of scalars. -/

namespace StepSequencer.Yaml

inductive Node where
  | scalar (plain : Bool) (content : List Char)
  | list (items : List Node)
  | map (entries : List (Node × Node))

/-- What stands where nothing is written. -/
def Node.empty : Node := .scalar true []

/-- The next token is one of several, before which nothing is written. -/
def stopsAt (stops : List Token) : List Token → Bool
  | token :: _ => stops.contains token
  | [] => false

abbrev Reading := StateT (List Token) (Except Malformed)

/-- The tokens that are left. A fault counts when it comes next, and not before. -/
def upcoming : Reading (List Token) := do
  match ← get with
  | .broken cause :: _ => throw cause
  | tokens => return tokens

/-- Where brackets allow another item: after a comma, or at once before the first item. -/
def nextItem (first : Bool) : Reading Unit := do
  match first, ← upcoming with
  | true, _ => return
  | false, .comma :: rest => set rest
  | false, _ => throw .syntaxError

mutual

/-- A node. A block list may stand at the indentation of the key that it belongs to. -/
def node (block unindented : Bool) : (fuel : Nat) → Reading Node
  | 0 => throw .syntaxError
  | fuel + 1 => do
    match ← upcoming, block, unindented with
    | .scalar plain content :: rest, _, _ => set rest; return .scalar plain content
    | .listOpen :: rest, _, _ => set rest; return .list (← flowItems true fuel)
    | .mapOpen :: rest, _, _ => set rest; return .map (← flowEntries true fuel)
    | .blockListStart :: rest, true, _ => set rest; return .list (← blockItems fuel)
    | .blockMapStart :: rest, true, _ => set rest; return .map (← blockEntries fuel)
    | .item :: _, _, true => return .list (← unindentedItems fuel)
    | _, _, _ => throw .syntaxError

/-- A node, or nothing where one of several tokens follows. -/
def nodeOrEmpty (block unindented : Bool) (stops : List Token) : (fuel : Nat) → Reading Node
  | 0 => throw .syntaxError
  | fuel + 1 => do
    if stopsAt stops (← upcoming) then return .empty else node block unindented fuel

def blockItems : (fuel : Nat) → Reading (List Node)
  | 0 => throw .syntaxError
  | fuel + 1 => do
    match ← upcoming with
    | .item :: rest =>
      set rest
      let first ← nodeOrEmpty true false [.item, .blockEnd] fuel
      return first :: (← blockItems fuel)
    | .blockEnd :: rest => set rest; return []
    | _ => throw .syntaxError

/-- The items of a block list that no indentation closes. -/
def unindentedItems : (fuel : Nat) → Reading (List Node)
  | 0 => throw .syntaxError
  | fuel + 1 => do
    match ← upcoming with
    | .item :: rest =>
      set rest
      let first ← nodeOrEmpty true false [.item, .key, .value, .blockEnd] fuel
      return first :: (← unindentedItems fuel)
    | _ => return []

def valueOrEmpty (block : Bool) (stops : List Token) : (fuel : Nat) → Reading Node
  | 0 => throw .syntaxError
  | fuel + 1 => do
    match ← upcoming with
    | .value :: rest => set rest; nodeOrEmpty block block stops fuel
    | _ => return .empty

def blockEntries : (fuel : Nat) → Reading (List (Node × Node))
  | 0 => throw .syntaxError
  | fuel + 1 => do
    match ← upcoming with
    | .key :: rest =>
      set rest
      let key ← nodeOrEmpty true true [.key, .value, .blockEnd] fuel
      let value ← valueOrEmpty true [.key, .value, .blockEnd] fuel
      return (key, value) :: (← blockEntries fuel)
    | .blockEnd :: rest => set rest; return []
    | _ => throw .syntaxError

def flowPair (close : Token) : (fuel : Nat) → Reading (Node × Node)
  | 0 => throw .syntaxError
  | fuel + 1 => do
    let key ← nodeOrEmpty false false [.value, .comma, close] fuel
    let value ← valueOrEmpty false [.comma, close] fuel
    return (key, value)

/-- The items of a list in brackets up to its end. A pair is a map of its own. -/
def flowItems (first : Bool) : (fuel : Nat) → Reading (List Node)
  | 0 => throw .syntaxError
  | fuel + 1 => do
    unless stopsAt [.listClose] (← upcoming) do nextItem first
    match ← upcoming with
    | .listClose :: rest => set rest; return []
    | .key :: rest =>
      set rest
      let pair ← flowPair .listClose fuel
      return .map [pair] :: (← flowItems false fuel)
    | _ =>
      let item ← node false false fuel
      return item :: (← flowItems false fuel)

/-- The entries of a map in brackets up to its end. A key may stand alone. -/
def flowEntries (first : Bool) : (fuel : Nat) → Reading (List (Node × Node))
  | 0 => throw .syntaxError
  | fuel + 1 => do
    unless stopsAt [.mapClose] (← upcoming) do nextItem first
    match ← upcoming with
    | .mapClose :: rest => set rest; return []
    | .key :: rest =>
      set rest
      let pair ← flowPair .mapClose fuel
      return pair :: (← flowEntries false fuel)
    | _ =>
      let key ← node false false fuel
      return (key, .empty) :: (← flowEntries false fuel)

end

/-- The single node of a text, with the boundaries around it. -/
def onlyNode (fuel : Nat) : Reading Node := do
  let only ← match ← upcoming with
    | [.documentStart] => set ([] : List Token); pure Node.empty
    | .documentStart :: rest =>
      set rest
      nodeOrEmpty true false [.documentStart, .documentEnd] fuel
    | _ => node true false fuel
  set ((← upcoming).dropWhile (· = .documentEnd))
  if (← upcoming).isEmpty then return only else throw .syntaxError

/-- The single node of a text, if it holds any. No token is passed over more than four times. -/
def Node.ofTokens? (tokens : List Token) : Except Malformed (Option Node) :=
  if tokens.isEmpty then .ok none
  else ((onlyNode (4 * (tokens.length + 1))).run' tokens).map some

end StepSequencer.Yaml
