import LayerGraph.Yaml.Scanner.Text

/-!
# Nodes of YAML texts

A document is a node: a scalar, a sequence or a mapping. Where a node is left out an empty plain
scalar stands for it. A node may take a slot and then stand at other places too, even inside itself.
A text may hold one document at most.
-/

namespace LayerGraph.Yaml

/-- A node. The members of a mapping keep their order, and keys may be repeated. Tags are kept only
where they decide what a node stands for. -/
inductive Node
  | scalar (text : String) (form : Form) (tag : Option String)
  | sequence (items : List Node)
  | mapping (members : List (Node × Node))
  /-- A node that takes a slot. -/
  | anchored (slot : Nat) (node : Node)
  /-- The node that took the slot. -/
  | reference (slot : Nat)
deriving Repr, Inhabited

/-- What stands where a node is left out. -/
def Node.absent : Node := .scalar "" .plain none

namespace Node

mutual

/-- Reads a node with its anchor and its tag, in either order. -/
def ofTokens (isBlock isBare : Bool) (fuel : Nat) (ts : List Token) : Option (Node × List Token) :=
  match fuel with
  | 0 => none
  | fuel + 1 =>
    let named (slot : Nat) (tag : Option String) (ts : List Token) :=
      (content isBlock isBare true tag fuel ts).map fun (node, rest) => (anchored slot node, rest)
    match ts with
    | .reference slot :: rest => some (reference slot, rest)
    | .anchor slot :: .tag text :: rest => named slot (some text) rest
    | .tag text :: .anchor slot :: rest => named slot (some text) rest
    | .anchor slot :: rest => named slot none rest
    | .tag text :: rest => content isBlock isBare true (some text) fuel rest
    | _ => content isBlock isBare false none fuel ts

/-- Reads what follows the anchor and the tag of a node; a node that has one of them may be left
out. Block collections are refused inside brackets, and a sequence without indentation of its own is
a node only as a key or a value of a block mapping. -/
def content (isBlock isBare isOptional : Bool) (tag : Option String) (fuel : Nat)
    (ts : List Token) : Option (Node × List Token) :=
  match fuel with
  | 0 => none
  | fuel + 1 =>
    let ifAbsent := if isOptional then some (scalar "" .plain tag, ts) else none
    match ts with
    | .scalar text form :: rest => some (scalar text form (tag.filter (· ≠ "!")), rest)
    | .flowSequence :: rest => flowItems fuel true [] rest
    | .flowMapping :: rest => flowMembers fuel true [] rest
    | .blockSequence :: rest => if isBlock then blockItems fuel [] rest else ifAbsent
    | .blockMapping :: rest => if isBlock then blockMembers fuel [] rest else ifAbsent
    | .blockEntry :: _ => if isBare then bareItems fuel [] ts else ifAbsent
    | _ => ifAbsent

/-- Reads a node unless one of the given tokens shows that it is left out. -/
def orAbsent (stops : List Token) (isBlock isBare : Bool) (fuel : Nat) (ts : List Token) :
    Option (Node × List Token) :=
  match fuel with
  | 0 => none
  | fuel + 1 =>
    match ts with
    | [] => ofTokens isBlock isBare fuel ts
    | t :: _ => if t ∈ stops then some (absent, ts) else ofTokens isBlock isBare fuel ts

/-- Reads the items of a block sequence. -/
def blockItems (fuel : Nat) (read : List Node) (ts : List Token) : Option (Node × List Token) :=
  match fuel with
  | 0 => none
  | fuel + 1 =>
    match ts with
    | .blockEntry :: rest => do
      let (item, rest) ← orAbsent [.blockEntry, .blockEnd] true false fuel rest
      blockItems fuel (item :: read) rest
    | .blockEnd :: rest => some (.sequence read.reverse, rest)
    | _ => none

/-- Reads the items of a block sequence without indentation of its own. -/
def bareItems (fuel : Nat) (read : List Node) (ts : List Token) : Option (Node × List Token) :=
  match fuel with
  | 0 => none
  | fuel + 1 =>
    match ts with
    | .blockEntry :: rest => do
      let (item, rest) ← orAbsent [.blockEntry, .key, .value, .blockEnd] true false fuel rest
      bareItems fuel (item :: read) rest
    | _ => some (.sequence read.reverse, ts)

/-- Reads the members of a block mapping. -/
def blockMembers (fuel : Nat) (read : List (Node × Node)) (ts : List Token) :
    Option (Node × List Token) :=
  match fuel with
  | 0 => none
  | fuel + 1 =>
    match ts with
    | .key :: rest => do
      let (key, rest) ← orAbsent [.key, .value, .blockEnd] true true fuel rest
      match rest with
      | .value :: rest =>
        let (value, rest) ← orAbsent [.key, .value, .blockEnd] true true fuel rest
        blockMembers fuel ((key, value) :: read) rest
      | _ => blockMembers fuel ((key, absent) :: read) rest
    | .blockEnd :: rest => some (.mapping read.reverse, rest)
    | _ => none

/-- Reads the items of a sequence in brackets. A key in it makes a mapping of one member. -/
def flowItems (fuel : Nat) (isFirst : Bool) (read : List Node) (ts : List Token) :
    Option (Node × List Token) :=
  match fuel with
  | 0 => none
  | fuel + 1 =>
    match ts, isFirst with
    | .flowSequenceEnd :: rest, _ => some (.sequence read.reverse, rest)
    | .flowEntry :: rest, false => flowItem fuel read rest
    | _, true => flowItem fuel read ts
    | _, false => none

/-- Reads an item of a sequence in brackets, or its end after a comma. The token after the mark of a
key that is left out is passed over with it. -/
def flowItem (fuel : Nat) (read : List Node) (ts : List Token) : Option (Node × List Token) :=
  match fuel with
  | 0 => none
  | fuel + 1 =>
    match ts with
    | .flowSequenceEnd :: rest => some (.sequence read.reverse, rest)
    | .key :: rest => do
      let (key, rest) ←
        match rest with
        | .value :: rest | .flowEntry :: rest | .flowSequenceEnd :: rest => some (absent, rest)
        | _ => ofTokens false false fuel rest
      match rest with
      | .value :: rest =>
        let (value, rest) ← orAbsent [.flowEntry, .flowSequenceEnd] false false fuel rest
        flowItems fuel false (.mapping [(key, value)] :: read) rest
      | _ => flowItems fuel false (.mapping [(key, absent)] :: read) rest
    | _ => do
      let (item, rest) ← ofTokens false false fuel ts
      flowItems fuel false (item :: read) rest

/-- Reads the members of a mapping in brackets. -/
def flowMembers (fuel : Nat) (isFirst : Bool) (read : List (Node × Node)) (ts : List Token) :
    Option (Node × List Token) :=
  match fuel with
  | 0 => none
  | fuel + 1 =>
    match ts, isFirst with
    | .flowMappingEnd :: rest, _ => some (.mapping read.reverse, rest)
    | .flowEntry :: rest, false => flowMember fuel read rest
    | _, true => flowMember fuel read ts
    | _, false => none

/-- Reads a member of a mapping in brackets, or its end after a comma. -/
def flowMember (fuel : Nat) (read : List (Node × Node)) (ts : List Token) :
    Option (Node × List Token) :=
  match fuel with
  | 0 => none
  | fuel + 1 =>
    match ts with
    | .flowMappingEnd :: rest => some (.mapping read.reverse, rest)
    | .key :: rest => do
      let (key, rest) ← orAbsent [.value, .flowEntry, .flowMappingEnd] false false fuel rest
      match rest with
      | .value :: rest =>
        let (value, rest) ← orAbsent [.flowEntry, .flowMappingEnd] false false fuel rest
        flowMembers fuel false ((key, value) :: read) rest
      | _ => flowMembers fuel false ((key, absent) :: read) rest
    | _ => do
      let (key, rest) ← ofTokens false false fuel ts
      flowMembers fuel false ((key, absent) :: read) rest

end

/-- The nodes that take slots, in the order in which they begin. -/
def anchoredNodes : Node → List (Nat × Node)
  | anchored slot node => (slot, node) :: node.anchoredNodes
  | sequence items => ofItems items
  | mapping members => ofMembers members
  | _ => []
where
  /-- Those in items of a sequence. -/
  ofItems : List Node → List (Nat × Node)
    | [] => []
    | item :: rest => item.anchoredNodes ++ ofItems rest
  /-- Those in members of a mapping. -/
  ofMembers : List (Node × Node) → List (Nat × Node)
    | [] => []
    | (key, value) :: rest => key.anchoredNodes ++ value.anchoredNodes ++ ofMembers rest

end Node

/-! ## Documents -/

/-- A document. -/
structure Document where
  root : Node
deriving Repr

/-- Reads the node of a document. It may be left out only after the mark that starts a document, in
front of which directives may stand. -/
def Document.rootOf (ts : List Token) : Option (Node × List Token) :=
  let node (ts : List Token) := Node.ofTokens true false (6 * ts.length + 6) ts
  let isMarked := ts.head?.any fun t => t = .directive || t = .documentStart
  match isMarked, ts.dropWhile (· = .directive) with
  | true, .documentStart :: rest =>
    match rest with
    | [] | .directive :: _ | .documentStart :: _ | .documentEnd :: _ => some (.absent, rest)
    | _ => node rest
  | true, _ => none
  | false, _ => node ts

/-- The node itself in place of a node that takes a slot, or that names one. When several nodes took
a slot, the last of them stands for it. -/
def Document.follow (d : Document) : Node → Node
  | .reference slot => (d.root.anchoredNodes.reverse.lookup slot).getD .absent
  | .anchored _ node => node
  | node => node

/-- The document of a text: `none` when the text is not well formed or holds several documents, and
no document when it holds none. -/
def document? (text : String) : Option (Option Document) := do
  let ts ← tokens? text
  if ts.isEmpty then return none
  let (root, rest) ← Document.rootOf ts
  if rest.all (· = .documentEnd) then return some { root } else none

end LayerGraph.Yaml
