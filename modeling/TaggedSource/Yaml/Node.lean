/-
YAML documents as trees. A node may carry a slot, by which references to
its anchor find it, and a reference is a node that names a slot.

Slots are numbered by how many anchor names are known when the anchor is
met, so a name that is defined anew leaves its old slot behind, and the
next new name takes the same slot again; the last node in the document
with a slot is the one that its references mean (`Node.atSlot?`).

The reader descends through the tokens. Every call of it spends one unit
of a budget that is computed from the number of tokens (`budget`): between
two tokens it calls itself fewer than four times.
-/
import TaggedSource.Yaml.Token

namespace TaggedSource.Yaml

/-- A node of a document. -/
inductive Node where
  /-- A scalar, and whether it is written plainly. -/
  | scalar (slot : Option Nat) (plain : Bool) (text : Text)
  /-- A sequence. -/
  | sequence (slot : Option Nat) (items : List Node)
  /-- A mapping; keys are nodes and can come more than once. -/
  | mapping (slot : Option Nat) (entries : List (Node × Node))
  /-- A reference to the node with a slot. -/
  | alias (slot : Nat)
  deriving Repr

namespace Node

/-- The empty scalar, which stands where a node is left out. -/
def empty : Node := .scalar none true []

/-- The slot of a node. -/
def slot? : Node → Option Nat
  | .scalar slot .. => slot
  | .sequence slot _ => slot
  | .mapping slot _ => slot
  | .alias _ => none

mutual

/-- The nodes of a tree, each before its parts. -/
def nodes : Node → List Node
  | .scalar slot plain text => [.scalar slot plain text]
  | .alias slot => [.alias slot]
  | .sequence slot items => .sequence slot items :: nodesOfItems items
  | .mapping slot entries => .mapping slot entries :: nodesOfEntries entries

/-- The nodes of the items of a sequence. -/
def nodesOfItems : List Node → List Node
  | [] => []
  | item :: items => nodes item ++ nodesOfItems items

/-- The nodes of the entries of a mapping. -/
def nodesOfEntries : List (Node × Node) → List Node
  | [] => []
  | (key, value) :: entries => nodes key ++ nodes value ++ nodesOfEntries entries

end

/-- The number of marks that spell a tree: one for a scalar or a
reference, a begin and an end for a collection. -/
def markCount (n : Node) : Nat :=
  n.nodes.foldl (fun count node => count + marks node) 0
where
  /-- The marks of one node alone. -/
  marks : Node → Nat
    | .sequence .. | .mapping .. => 2
    | _ => 1

/-- The last node of a tree with a slot. -/
def atSlot? (root : Node) (slot : Nat) : Option Node :=
  root.nodes.reverse.find? fun node => node.slot? = some slot

end Node

-- =============================================================== reading

/-- What is still to be read, and what was declared. -/
structure Input where
  /-- The tokens that come next. -/
  tokens : List Token
  /-- The slots of the anchor names. -/
  names : List (Text × Nat) := []
  /-- The handles that tags may have. -/
  handles : List Text := []

/-- A reader of tokens. -/
abbrev Reader (α : Type) : Type := StateT Input Option α

namespace Reader

/-- The token that comes next. -/
def peek : Reader Token := do
  return (← get).tokens.headD .streamEnd

/-- Takes a token. -/
def skip : Reader Unit := modify fun i => { i with tokens := i.tokens.drop 1 }

/-- Gives a name a slot. -/
def define (name : Text) : Reader Nat := do
  let names := (← get).names
  let slot := names.length
  modify fun i => { i with names := (name, slot) :: names.filter (·.1 ≠ name) }
  return slot

/-- The slot of a name, which has to have one. -/
def slotOf (name : Text) : Reader Nat := do
  match (← get).names.find? (·.1 = name) with
  | some (_, slot) => return slot
  | none => failure

/-- Takes an anchor if one comes next. -/
def anchor? : Reader (Option Text) := do
  match ← peek with
  | .anchor name => skip; return some name
  | _ => return none

/-- Takes a tag if one comes next; its handle has to be declared. -/
def tag? : Reader Bool := do
  match ← peek with
  | .tag handle =>
    skip
    if handle.isEmpty || (← get).handles.contains handle then return true else failure
  | _ => return false

/-- Takes the anchor and the tag of a node, in either order. -/
def properties : Reader (Option Text × Bool) := do
  match ← anchor? with
  | some name => return (some name, ← tag?)
  | none =>
    let tagged ← tag?
    if tagged then return (← anchor?, true) else return (none, false)

/-- Whether a node is left out before a token of a block mapping. -/
def endsBlockPart : Token → Bool
  | .key | .value | .blockEnd => true
  | _ => false

mutual

/-- Reads a node. Block collections are only read where `block` allows
them, and dashes without deeper indentation where `indentless` does. -/
def node : (budget : Nat) → (block indentless : Bool) → Reader Node
  | 0, _, _ => failure
  | budget + 1, block, indentless => do
    match ← peek with
    | .alias name =>
      skip
      return .alias (← slotOf name)
    | _ =>
      let (name, tagged) ← properties
      let slot ← match name with
        | some name => some <$> define name
        | none => pure none
      match ← peek with
      | .blockEntry =>
        if indentless then return .sequence slot (← indentlessItems budget)
        else leftOut slot (name.isSome || tagged)
      | .scalar plain text => skip; return .scalar slot plain text
      | .flowSequenceStart => skip; return .sequence slot (← flowItems budget true)
      | .flowMappingStart => skip; return .mapping slot (← flowEntries budget true)
      | .blockSequenceStart =>
        if block then
          skip
          return .sequence slot (← blockItems budget)
        else
          leftOut slot (name.isSome || tagged)
      | .blockMappingStart =>
        if block then
          skip
          return .mapping slot (← blockEntries budget)
        else
          leftOut slot (name.isSome || tagged)
      | _ => leftOut slot (name.isSome || tagged)

/-- A node of which only the anchor or the tag is written. -/
def leftOut (slot : Option Nat) (marked : Bool) : Reader Node :=
  if marked then return .scalar slot true [] else failure

/-- Reads a node, or none before a token that ends it. -/
def nodeUnless (ends : Token → Bool) :
    (budget : Nat) → (block indentless : Bool) → Reader Node
  | 0, _, _ => failure
  | budget + 1, block, indentless => do
    if ends (← peek) then return .empty else node budget block indentless

/-- Reads the items of a block sequence. -/
def blockItems : (budget : Nat) → Reader (List Node)
  | 0 => failure
  | budget + 1 => do
    match ← peek with
    | .blockEntry =>
      skip
      let item ← nodeUnless (fun t => t = .blockEntry || t = .blockEnd) budget true false
      return item :: (← blockItems budget)
    | .blockEnd => skip; return []
    | _ => failure

/-- Reads the items of a sequence that is not indented. -/
def indentlessItems : (budget : Nat) → Reader (List Node)
  | 0 => failure
  | budget + 1 => do
    match ← peek with
    | .blockEntry =>
      skip
      let item ← nodeUnless (fun t => t = .blockEntry || endsBlockPart t) budget true false
      return item :: (← indentlessItems budget)
    | _ => return []

/-- Reads the entries of a block mapping. -/
def blockEntries : (budget : Nat) → Reader (List (Node × Node))
  | 0 => failure
  | budget + 1 => do
    match ← peek with
    | .key =>
      skip
      let key ← nodeUnless endsBlockPart budget true true
      let value ← valueUnless endsBlockPart budget true
      return (key, value) :: (← blockEntries budget)
    | .blockEnd => skip; return []
    | _ => failure

/-- Reads a value if the indicator of one comes next. -/
def valueUnless (ends : Token → Bool) : (budget : Nat) → (block : Bool) → Reader Node
  | 0, _ => failure
  | budget + 1, block => do
    if (← peek) = .value then
      skip
      nodeUnless ends budget block block
    else
      return .empty

/-- Reads the items of a flow sequence; `first` if none was read before.
An item with a key is a mapping of one entry. -/
def flowItems : (budget : Nat) → (first : Bool) → Reader (List Node)
  | 0, _ => failure
  | budget + 1, first => do
    if (← peek) = .flowSequenceEnd then
      skip
      return []
    if !first then
      if (← peek) = .flowEntry then skip else failure
    match ← peek with
    | .flowSequenceEnd => skip; return []
    | .key =>
      skip
      let ends := fun t => t = .flowEntry || t = .flowSequenceEnd
      let key ← if ends (← peek) || (← peek) = .value then
          skip
          pure .empty
        else
          node budget false false
      let value ← valueUnless ends budget false
      return .mapping none [(key, value)] :: (← flowItems budget false)
    | _ =>
      let item ← node budget false false
      return item :: (← flowItems budget false)

/-- Reads the entries of a flow mapping; `first` if none was read before. -/
def flowEntries : (budget : Nat) → (first : Bool) → Reader (List (Node × Node))
  | 0, _ => failure
  | budget + 1, first => do
    if (← peek) = .flowMappingEnd then
      skip
      return []
    if !first then
      if (← peek) = .flowEntry then skip else failure
    match ← peek with
    | .flowMappingEnd => skip; return []
    | .key =>
      skip
      let ends := fun t => t = .flowEntry || t = .flowMappingEnd
      let key ← nodeUnless (fun t => t = .value || ends t) budget false false
      let value ← valueUnless ends budget false
      return (key, value) :: (← flowEntries budget false)
    | _ =>
      let key ← node budget false false
      return (key, .empty) :: (← flowEntries budget false)

end

-- ============================================================= documents

/-- Takes the directives before a document. There is one version at most,
and it is 1.1 or 1.2; a handle is declared once at most. -/
def directives : (budget : Nat) → (versioned : Bool) → Reader Unit
  | 0, _ => failure
  | budget + 1, versioned => do
    match ← peek with
    | .directive (.version major minor) =>
      skip
      if versioned || major ≠ 1 || (minor ≠ 1 && minor ≠ 2) then failure
      directives budget true
    | .directive (.handle name) =>
      skip
      if (← get).handles.contains name then failure
      modify fun i => { i with handles := name :: i.handles }
      directives budget versioned
    | _ => return

/-- Declares the handles that need no declaration. -/
def declareHandles : Reader Unit :=
  modify fun i => { i with handles := i.handles ++ [text "!", text "!!"] }

/-- Whether a document is empty before a token. -/
def endsDocument : Token → Bool
  | .directive _ | .documentStart | .documentEnd | .streamEnd => true
  | _ => false

/-- Reads a document that begins with directives or a marker. -/
def explicitDocument (budget : Nat) : Reader Node := do
  directives budget false
  declareHandles
  if (← peek) = .documentStart then
    skip
    nodeUnless endsDocument budget true false
  else
    failure

/-- Reads the first document. -/
def document (budget : Nat) : Reader Node := do
  match ← peek with
  | .streamEnd => return .empty
  | .directive _ | .documentStart => explicitDocument budget
  | _ =>
    declareHandles
    node budget true false

/-- Takes markers of the document's end; then the text has to end. -/
def streamEnd : Reader Unit := do
  let tokens := (← get).tokens
  if tokens.dropWhile (· = .documentEnd) = [.streamEnd] then return else failure

end Reader

/-- A budget that suffices for the tokens. -/
def budget (tokens : List Token) : Nat := 4 * tokens.length + 4

/-- The only document of a text. -/
def parse? (t : Text) : Option Node := do
  let tokens ← tokens? t
  let reader : Reader Node := do
    let root ← Reader.document (budget tokens)
    Reader.streamEnd
    return root
  let (root, _) ← reader.run { tokens := tokens }
  some root

end TaggedSource.Yaml
