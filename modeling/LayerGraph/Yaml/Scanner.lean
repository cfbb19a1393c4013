import LayerGraph.Yaml.Token

/-!
# The scanner of YAML texts

That a scalar or a bracket begins a key is known only at the colon after it, so the scanner
remembers where a key may begin and puts the tokens for it there. It also keeps what the directives
and the anchors so far have named.
-/

namespace LayerGraph.Yaml

/-- A place where a key may begin. -/
structure KeyPlace where
  /-- The number of tokens before it. -/
  token : Nat
  line : Nat
  column : Nat
  index : Nat
  /-- Whether nothing but a key can stand there. -/
  isRequired : Bool

/-- A scanner at work. -/
structure Scanner where
  rest : List Char
  line : Nat := 0
  column : Nat := 0
  /-- The number of octets so far. -/
  index : Nat := 0
  /-- The columns of the open block collections, the innermost first. -/
  indents : List Int := []
  /-- For each open bracket, and for the text outside of all, where a key may begin. -/
  places : List (Option KeyPlace) := [none]
  /-- Whether a key may begin here. -/
  keyAllowed : Bool := true
  /-- Whether a directive has given the version. -/
  isVersioned : Bool := false
  /-- The beginnings of tags that directives have named. -/
  tagNames : List (String × String) := []
  /-- The slots that the names of anchors stand for. -/
  slots : List (String × Nat) := []
  /-- The tokens so far. -/
  tokens : Array Token := #[]

namespace Scanner

def indent (s : Scanner) : Int := s.indents.headD (-1)

/-- Whether the scanner is inside brackets. -/
def inFlow (s : Scanner) : Bool := 1 < s.places.length

def emit (s : Scanner) (t : Token) : Scanner :=
  { s with tokens := s.tokens.push t }

/-- How many octets a number of characters at the front are written with. -/
def octetsOf (n : Nat) (cs : List Char) : Nat :=
  (cs.take n).foldl (fun sum c => sum + c.utf8Size) 0

/-- Passes over a number of characters of a line. -/
def skip (s : Scanner) (n : Nat) : Scanner :=
  { s with rest := s.rest.drop n, column := s.column + n, index := s.index + octetsOf n s.rest }

/-- Passes over a break and gives it; all but the separators of lines and paragraphs count as line
feeds. -/
def takeBreak (s : Scanner) : Char × Scanner :=
  let pass (n : Nat) : Scanner :=
    { s with
      rest := s.rest.drop n, line := s.line + 1, column := 0
      index := s.index + octetsOf n s.rest }
  match s.rest with
  | '\r' :: '\n' :: _ => ('\n', pass 2)
  | c :: _ => (if 0x2028 ≤ c.toNat then c else '\n', pass 1)
  | [] => ('\n', s)

/-- Closes the block collections that are indented more than a column. -/
def unroll (s : Scanner) (column : Int) : Scanner :=
  if s.inFlow then s
  else
    let closed := s.indents.takeWhile (column < ·)
    { s with
      indents := s.indents.drop closed.length
      tokens := s.tokens ++ Array.replicate closed.length .blockEnd }

/-- Opens a block collection at a column unless one is open there. -/
def roll (s : Scanner) (column : Nat) (token : Nat) (t : Token) : Scanner :=
  if s.inFlow || (column : Int) ≤ s.indent then s
  else
    { s with
      indents := (column : Int) :: s.indents
      tokens := s.tokens.take token ++ #[t] ++ s.tokens.drop token }

/-- Forgets the place where a key may begin; a required key must not be missed. -/
def dropPlace (s : Scanner) : Option Scanner :=
  match s.places with
  | some p :: outer => if p.isRequired then none else some { s with places := none :: outer }
  | _ => some s

/-- Remembers that a key may begin here. -/
def markPlace (s : Scanner) : Option Scanner :=
  if s.keyAllowed then do
    let s ← s.dropPlace
    let place : KeyPlace :=
      { token := s.tokens.size, line := s.line, column := s.column, index := s.index
        isRequired := !s.inFlow && s.indent = s.column }
    return { s with places := some place :: s.places.drop 1 }
  else some s

/-- Forgets the places on earlier lines and those too far back: a key and its colon stand on one
line, within a thousand and twenty-four octets. -/
def dropStale (s : Scanner) : Option Scanner := do
  let places ← s.places.mapM fun place =>
    match place with
    | none => some none
    | some p =>
      if p.line < s.line || p.index + 1024 < s.index then
        if p.isRequired then none else some none
      else some (some p)
  return { s with places }

/-- Closes everything that is open, before a directive, a document mark or the end. -/
def closeAll (s : Scanner) : Option Scanner := do
  let s ← (s.unroll (-1)).dropPlace
  return { s with keyAllowed := false }

/-- Passes over blanks, comments and breaks up to the next token. A tab may stand only where no key
may begin, and a line may begin with a byte order mark. -/
def toNextToken (fuel : Nat) (s : Scanner) : Scanner :=
  match fuel with
  | 0 => s
  | fuel + 1 =>
    match s.rest with
    | [] => s
    | c :: _ =>
      if (c = '\ufeff' && s.column = 0) || c = ' ' || (c = '\t' && (s.inFlow || !s.keyAllowed)) then
        (s.skip 1).toNextToken fuel
      else if c = '#' then
        (s.skip (s.rest.takeWhile fun c => !isBreak c).length).toNextToken fuel
      else if isBreak c then
        let s := s.takeBreak.2
        { s with keyAllowed := s.keyAllowed || !s.inFlow }.toNextToken fuel
      else s

end Scanner

end LayerGraph.Yaml
