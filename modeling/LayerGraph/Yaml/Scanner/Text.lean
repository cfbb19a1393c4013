import LayerGraph.Yaml.Scanner.Property
import LayerGraph.Yaml.Scanner.Scalar

/-!
# From YAML texts to tokens

What a token begins with decides how it is read. A text whose tokens cannot be told apart has none.
-/

namespace LayerGraph.Yaml

namespace Scanner

/-- Whether a plain scalar can begin with what comes next. -/
def beginsPlain (inFlow : Bool) (cs : List Char) : Bool :=
  match cs with
  | [] => false
  | c :: rest =>
    let indicators : List Char :=
      ['-', '?', ':', ',', '[', ']', '\x7b', '\x7d', '#', '&', '*', '!', '|', '>', '\'', '"', '%',
       '@', '\x60']
    if isBlank c || isBreak c then false
    else if c ∉ indicators then true
    else if c = '-' then !(rest.head?.all isBlank) && !(rest.head?.any isBreak)
    else (c = '?' || c = ':') && !inFlow && !endsWord rest

/-- Reads the entry mark of a block sequence. -/
def blockEntry (s : Scanner) : Option Scanner := do
  let s ←
    if s.inFlow then some s
    else if s.keyAllowed then some (s.roll s.column s.tokens.size .blockSequence)
    else none
  let s ← s.dropPlace
  return ({ s with keyAllowed := true }.skip 1).emit .blockEntry

/-- Reads the mark of a key. -/
def explicitKey (s : Scanner) : Option Scanner := do
  let s ←
    if s.inFlow then some s
    else if s.keyAllowed then some (s.roll s.column s.tokens.size .blockMapping)
    else none
  let s ← s.dropPlace
  return ({ s with keyAllowed := !s.inFlow }.skip 1).emit .key

/-- Reads the mark of a value. If a key may have begun on the line, it has begun there. -/
def valueMark (s : Scanner) : Option Scanner := do
  let s ←
    match s.places with
    | some p :: outer =>
      let s := { s with
        tokens := s.tokens.take p.token ++ #[Token.key] ++ s.tokens.drop p.token
        places := none :: outer }
      some { s.roll p.column p.token .blockMapping with keyAllowed := false }
    | _ =>
      if s.inFlow then some { s with keyAllowed := false }
      else if s.keyAllowed then
        some { s.roll s.column s.tokens.size .blockMapping with keyAllowed := true }
      else none
  return (s.skip 1).emit .value

/-- Reads an opening bracket. -/
def openBracket (s : Scanner) (t : Token) : Option Scanner := do
  let s ← s.markPlace
  return ({ s with places := none :: s.places, keyAllowed := true }.skip 1).emit t

/-- Reads a closing bracket. -/
def closeBracket (s : Scanner) (t : Token) : Option Scanner := do
  let s ← s.dropPlace
  let places := if s.inFlow then s.places.drop 1 else s.places
  return ({ s with places, keyAllowed := false }.skip 1).emit t

/-- Reads the next token. -/
def next (s : Scanner) : Option Scanner := do
  let s ← s.dropStale
  let s := s.unroll s.column
  let c ← s.rest.head?
  let after := s.rest.drop 1
  let scalar (read : Scanner → Option (List Char × Scanner)) (form : Form) :
      Option Scanner := do
    let s ← s.markPlace
    let (text, s) ← read { s with keyAllowed := false }
    return s.emit (.scalar (String.ofList text) form)
  if s.column = 0 && c = '%' then s.directive
  else if s.column = 0 && isDocumentMark '-' s.rest then
    return ((← s.closeAll).skip 3).emit .documentStart
  else if s.column = 0 && isDocumentMark '.' s.rest then
    return ((← s.closeAll).skip 3).emit .documentEnd
  else if c = '[' then s.openBracket .flowSequence
  else if c = '\x7b' then s.openBracket .flowMapping
  else if c = ']' then s.closeBracket .flowSequenceEnd
  else if c = '\x7d' then s.closeBracket .flowMappingEnd
  else if c = ',' then
    let s ← s.dropPlace
    return ({ s with keyAllowed := true }.skip 1).emit .flowEntry
  else if c = '-' && endsWord after then s.blockEntry
  else if c = '?' && (s.inFlow || endsWord after) then s.explicitKey
  else if c = ':' && (s.inFlow || endsWord after) then s.valueMark
  else if c = '*' then s.reference
  else if c = '&' then s.anchor
  else if c = '!' then s.tag
  else if (c = '|' || c = '>') && !s.inFlow then
    let s ← s.dropPlace
    let (text, s) ← { s with keyAllowed := true }.blockScalar (c = '|')
    return s.emit (.scalar (String.ofList text) (if c = '|' then .literal else .folded))
  else if c = '\'' || c = '"' then
    scalar (fun s => (s.skip 1).quotedWords (c = '\'') (s.rest.length + 1) []) .quoted
  else if beginsPlain s.inFlow s.rest then
    scalar (fun s => s.plainWords (s.rest.length + 1) [] (.blanks [])) .plain
  else none

/-- Reads all tokens; each takes at least one character. -/
def all (fuel : Nat) (s : Scanner) : Option (List Token) :=
  match fuel with
  | 0 => none
  | fuel + 1 => do
    let s := s.toNextToken (s.rest.length + 1)
    if s.rest.isEmpty then
      let s ← { s with line := s.line + 1, column := 0 }.dropStale
      return (← s.closeAll).tokens.toList
    else (← s.next).all fuel

end Scanner

/-- The tokens of a text, unless it is not well formed. -/
def tokens? (text : String) : Option (List Token) :=
  let cs := text.toList
  if cs.all isAllowed then Scanner.all (cs.length + 1) { rest := cs } else none

end LayerGraph.Yaml
