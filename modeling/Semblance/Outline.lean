import Semblance.Text.Quoted
import Semblance.Token

/-!
# Outlines

An outline is the tree of the nested blocks of a program.  Its nodes lie in one array, the root first, and point at
each other by their places.  `Outline.add` puts a node at the end of the array and enters it with its parent;
`Outline.ofTokens` adds a block for each opening delimiter and a statement for each control keyword that opens no
block, so the order of the array is that of the text.  A closing delimiter without an open block is passed over.
-/

namespace Semblance

/-- What a node stands for. -/
inductive NodeKind where
  | root
  | block
  | statement
  | other (name : Option String)
  deriving DecidableEq, Repr, Inhabited

namespace NodeKind

/-- The name of a kind. -/
def name? : NodeKind → Option String
  | root => some "root"
  | block => some "block"
  | statement => some "statement"
  | other name => name

/-- The kind with a name. -/
def ofName? (name : Option String) : NodeKind :=
  if name = some "root" then root
  else if name = some "block" then block
  else if name = some "statement" then statement
  else other name

end NodeKind

/-- A node of an outline.  A parent is given by its place, from the end of the array when it is negative. -/
structure OutlineNode where
  kind : NodeKind
  label : Option String
  delimiter : Option String := none
  parent : Option Int := none
  children : Array Nat := #[]
  deriving DecidableEq, Repr, Inhabited

/-- The tree of the nested blocks of a program. -/
structure Outline where
  nodes : Array OutlineNode := #[{ kind := .root, label := some "root" }]
  deriving DecidableEq, Repr, Inhabited

/-- What can be wrong with a use of an outline. -/
inductive OutlineError where
  | outOfRange
  | indexTooLarge
  | notOpening (delimiter : Option String)
  | indentTooLarge
  | padTooLong
  | padOutOfMemory
  | tooDeep
  deriving DecidableEq, Repr

/-- What is said about the error. -/
def OutlineError.message : OutlineError → String
  | outOfRange => "list index out of range"
  | indexTooLarge | indentTooLarge => "cannot fit 'int' into an index-sized integer"
  | padTooLong => "repeated string is too long"
  | padOutOfMemory => ""
  | notOpening delimiter => (delimiter.map Text.quoted).getD "None"
  | tooDeep => "maximum recursion depth exceeded"

/-- Indices and indents are words of 64 bits with a sign. -/
def isWord (n : Int) : Bool :=
  decide (-0x8000000000000000 ≤ n ∧ n ≤ 0x7FFFFFFFFFFFFFFF)

/-- The keywords that an outline shows. -/
def outlineKeywords : List String :=
  ["if", "else", "for", "while", "switch", "case", "default"]

/-- The closing delimiter of an opening one. -/
def closingDelimiter? (delimiter : String) : Option String :=
  if delimiter = "\x7b" then some "\x7d"
  else if delimiter = "(" then some ")"
  else if delimiter = "[" then some "]"
  else none

namespace Token

/-- An opening delimiter. -/
def isOpening (t : Token) : Bool :=
  t.kind = .punctuation && (closingDelimiter? t.value).isSome

/-- A closing delimiter. -/
def isClosing (t : Token) : Bool :=
  t.kind = .punctuation && (t.value = "\x7d" || t.value = ")" || t.value = "]")

/-- A keyword that an outline shows. -/
def isOutlined (t : Token) : Bool :=
  t.kind = .keyword && outlineKeywords.contains t.value

end Token

/-- Whether a brace comes next, with no punctuation before it but closing delimiters and separators. -/
def opensBlock : List Token → Bool
  | [] => false
  | t :: rest =>
    if t.kind = .punctuation && t.value ≠ "\x7b" then
      if t.value = "(" || t.value = "[" then false else opensBlock rest
    else t.value = "\x7b"

namespace Outline

/-- The number of nodes without the root. -/
def length (o : Outline) : Nat :=
  o.nodes.size - 1

/-- The place that an index means: a negative one counts from the end. -/
def place? (o : Outline) (index : Int) : Except OutlineError Nat :=
  if 0 ≤ index ∧ index < o.nodes.size then .ok index.toNat
  else if index < 0 ∧ 0 ≤ index + o.nodes.size then .ok (index + o.nodes.size).toNat
  else if isWord index then .error .outOfRange
  else .error .indexTooLarge

/-- Appends a node and enters it with its parent.  The node stays when its parent is out of range. -/
def add (o : Outline) (node : OutlineNode) : Except OutlineError Nat × Outline :=
  let grown : Outline := ⟨o.nodes.push node⟩
  match node.parent with
  | none => (.ok o.nodes.size, grown)
  | some parent =>
    match grown.place? parent with
    | .error e => (.error e, grown)
    | .ok p =>
      (.ok o.nodes.size, ⟨grown.nodes.modify p fun n => { n with children := n.children.push o.nodes.size }⟩)

theorem size_nodes_add (o : Outline) (node : OutlineNode) : (o.add node).2.nodes.size = o.nodes.size + 1 := by
  unfold add
  split
  · simp
  · dsimp only
    split <;> simp

/-- The node at an index. -/
def node? (o : Outline) (index : Int) : Except OutlineError OutlineNode := do
  match o.nodes[← o.place? index]? with
  | some node => .ok node
  | none => .error .outOfRange

/-- The children of the node at an index. -/
def children? (o : Outline) (index : Int) : Except OutlineError (List OutlineNode) := do
  let node ← o.node? index
  node.children.toList.mapM fun (child : Nat) => o.node? child

/-- Adds the nodes of a token list inside the block `current`, which lies in the blocks `outer`.  `label` is the last
keyword that no block has taken yet. -/
def addTokens (o : Outline) (current : Nat) (outer : List Nat) (label : Option String) : List Token → Outline
  | [] => o
  | t :: rest =>
    let label := if t.isOutlined then some t.value else label
    if t.isOpening then
      let node : OutlineNode :=
        { kind := .block, label := some (label.getD "block"), delimiter := some t.value, parent := some current }
      addTokens (o.add node).2 o.nodes.size (current :: outer) none rest
    else if t.isClosing then
      match outer with
      | [] => addTokens o current [] label rest
      | next :: others => addTokens o next others label rest
    else if t.isOutlined && !opensBlock rest then
      let node : OutlineNode := { kind := .statement, label := some t.value, parent := some current }
      addTokens (o.add node).2 current outer label rest
    else addTokens o current outer label rest

/-- The outline of a token list. -/
def ofTokens (tokens : List Token) : Outline :=
  addTokens {} 0 [] none tokens

/-- An indent that is asked for is a word, and its pad has to fit into memory.  The levels below are not held against
these bounds. -/
def checkIndent (indent : Int) : Except OutlineError Unit :=
  if !isWord indent then .error .indentTooLarge
  else if 0x4000000000000000 ≤ indent then .error .padTooLong
  else if 0x1000000000 ≤ indent then .error .padOutOfMemory
  else .ok ()

/-- The spaces before the lines at a level: two for each unit of the indent, and none for a negative one. -/
def pad (indent : Int) : String :=
  String.ofList (List.replicate (2 * indent).toNat ' ')

/-- The lines of a child, given those of its own children: a block has a line for its opening, the inner lines and a
line for its closing, any other node has one line. -/
def entryLines (pad : String) (child : OutlineNode) (inner : List String) : Except OutlineError (List String) :=
  let label := child.label.getD "None"
  if child.kind = .block then
    match child.delimiter, child.delimiter.bind closingDelimiter? with
    | some opening, some closing => .ok ((pad ++ label ++ " " ++ opening) :: inner ++ [pad ++ closing])
    | delimiter, _ => .error (.notOpening delimiter)
  else .ok [pad ++ label]

/-- The lines of the node at a place, given how to find the lines of its children; only blocks show children. -/
def placeLines (o : Outline) (indent : Int) (below : OutlineNode → Except OutlineError (List String)) (place : Nat) :
    Except OutlineError (List String) := do
  let child ← o.node? place
  let inner ← if child.kind = .block && !child.children.isEmpty then below child else .ok []
  entryLines (pad indent) child inner

/-- The lines of the node's children.  Each level of the tree is a call inside the one before, and uses up one of
`depth`. -/
def childLines (o : Outline) (indent : Int) (node : OutlineNode) : (depth : Nat) → Except OutlineError (List String)
  | 0 => .error .tooDeep
  | depth + 1 => do
    let groups ← node.children.toList.mapM (o.placeLines indent fun child => o.childLines (indent + 1) child depth)
    return groups.flatten

/-- The text of the outline below the node at an index, indented by twice the given number of spaces.  Within the
first call, `depth` more can be nested. -/
def render? (o : Outline) (depth : Nat) (index indent : Int) : Except OutlineError String := do
  let node ← o.node? index
  if node.children.isEmpty then return if index = 0 then "(empty)" else ""
  checkIndent indent
  return "\n".intercalate (← o.childLines indent node (depth + 1))

end Outline

end Semblance
