/-!
# Tokens of YAML texts

A text is cut into tokens before its nodes are read. Indentation shows as tokens that open and close
block collections, and a key as a token in front of it. Anchors and tags are tokens of their own in
front of the node that they belong to.
-/

namespace LayerGraph.Yaml

/-- How a scalar is written. -/
inductive Form
  | plain
  | quoted
  | literal
  | folded
deriving DecidableEq, Repr

/-- A token. -/
inductive Token
  | directive
  | documentStart
  | documentEnd
  | blockSequence
  | blockMapping
  | blockEnd
  | flowSequence
  | flowSequenceEnd
  | flowMapping
  | flowMappingEnd
  | blockEntry
  | flowEntry
  | key
  | value
  /-- The node that follows takes the slot, so that it can be named again. -/
  | anchor (slot : Nat)
  /-- The node that took the slot, again. -/
  | reference (slot : Nat)
  | tag (text : String)
  | scalar (text : String) (form : Form)
deriving DecidableEq, Repr

/-! ## Characters -/

/-- The characters that end a line. -/
def isBreak (c : Char) : Bool :=
  c = '\n' || c = '\r' || c.toNat = 0x85 || c.toNat = 0x2028 || c.toNat = 0x2029

def isBlank (c : Char) : Bool :=
  c = ' ' || c = '\t'

/-- The characters that a text may hold. -/
def isAllowed (c : Char) : Bool :=
  let n := c.toNat
  n = 9 || n = 10 || n = 13 || (0x20 ≤ n && n ≤ 0x7E) || n = 0x85 || (0xA0 ≤ n && n ≤ 0xFFFD) ||
    0x10000 ≤ n

/-- Whether a blank, a break or the end comes next. -/
def endsWord : List Char → Bool
  | [] => true
  | c :: _ => isBlank c || isBreak c

/-- Whether the line begins with a document mark: three of a character and then the end of a
word. -/
def isDocumentMark (c : Char) (cs : List Char) : Bool :=
  cs.take 3 = [c, c, c] && endsWord (cs.drop 3)

/-- The characters of words: letters, digits, dashes and underscores. -/
def isWordChar (c : Char) : Bool :=
  c.isAlphanum || c = '-' || c = '_'

end LayerGraph.Yaml
