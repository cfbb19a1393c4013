import LayerGraph.Text.Base
import LayerGraph.Yaml.Scanner

/-!
# Scalars of YAML texts

A scalar stands for a text. Plain and quoted scalars fold their lines into one, with a blank for a
single break; block scalars keep their lines or fold them too.
-/

namespace LayerGraph.Yaml.Scanner

/-! ### Gaps inside scalars -/

/-- What stands between two words of a scalar: blanks on a line, or breaks. -/
inductive Gap
  | blanks (cs : List Char)
  | breaks (first : Char) (more : List Char)

/-- The text that a gap stands for: a single break becomes a blank, and of several the first is
dropped. -/
def Gap.text : Gap → List Char
  | blanks cs => cs
  | breaks first more =>
    if first = '\n' then (if more.isEmpty then [' '] else more) else first :: more

/-- Passes over a gap. `tabLimit` is the column before which a tab may not stand on a new line. -/
def takeGap (tabLimit : Int) (fuel : Nat) (gap : Gap) (s : Scanner) : Option (Gap × Scanner) :=
  match fuel with
  | 0 => some (gap, s)
  | fuel + 1 =>
    match s.rest with
    | [] => some (gap, s)
    | c :: _ =>
      if isBlank c then
        match gap with
        | .blanks cs => (s.skip 1).takeGap tabLimit fuel (.blanks (cs ++ [c]))
        | .breaks _ _ =>
          if c = '\t' && (s.column : Int) < tabLimit then none
          else (s.skip 1).takeGap tabLimit fuel gap
      else if isBreak c then
        let (b, s) := s.takeBreak
        match gap with
        | .blanks _ => s.takeGap tabLimit fuel (.breaks b [])
        | .breaks first more => s.takeGap tabLimit fuel (.breaks first (more ++ [b]))
      else some (gap, s)

/-! ### Plain scalars -/

/-- The characters that end a plain word inside brackets. -/
def isFlowEnd (c : Char) : Bool :=
  c = ',' || c = '[' || c = ']' || c = '\x7b' || c = '\x7d'

/-- The next word of a plain scalar. A colon ends it before a blank; inside brackets, a colon before
a bracket or a comma is refused. -/
def plainWord (inFlow : Bool) : List Char → Option (List Char)
  | [] => some []
  | c :: rest =>
    if isBlank c || isBreak c then some []
    else if c = ':' && inFlow && (rest.head?.any fun d => isFlowEnd d || d = '?') then none
    else if c = ':' && endsWord rest then some []
    else if inFlow && isFlowEnd c then some []
    else (plainWord inFlow rest).map (c :: ·)

/-- Reads the words of a plain scalar, over several lines if they are indented enough. -/
def plainWords (fuel : Nat) (read : List Char) (gap : Gap) (s : Scanner) :
    Option (List Char × Scanner) :=
  let stop : List Char × Scanner :=
    match gap with
    | .blanks _ => (read, s)
    | .breaks _ _ => (read, { s with keyAllowed := true })
  match fuel with
  | 0 => some stop
  | fuel + 1 =>
    if s.column = 0 && (isDocumentMark '-' s.rest || isDocumentMark '.' s.rest) then some stop
    else if s.rest.head? = some '#' then some stop
    else do
      let word ← plainWord s.inFlow s.rest
      if word.isEmpty then return stop
      let read := read ++ gap.text ++ word
      let s := s.skip word.length
      let limit := s.indent + 1
      let (gap, s) ← s.takeGap limit (s.rest.length + 1) (.blanks [])
      match gap with
      | .blanks [] => return (read, s)
      | .blanks _ => s.plainWords fuel read gap
      | .breaks _ _ =>
        if !s.inFlow && (s.column : Int) < limit then return (read, { s with keyAllowed := true })
        else s.plainWords fuel read gap

/-! ### Quoted scalars -/

/-- The character of an escape with one letter. -/
def escapeLetter? (c : Char) : Option Char :=
  let table : List (Char × Nat) :=
    [('0', 0), ('a', 7), ('b', 8), ('t', 9), ('\t', 9), ('n', 10), ('v', 11), ('f', 12), ('r', 13),
     ('e', 27), (' ', 32), ('"', 34), ('/', 47), ('\\', 92), ('N', 0x85), ('_', 0xA0),
     ('L', 0x2028), ('P', 0x2029)]
  (table.lookup c).map Char.ofNat

/-- How many hexadecimal digits follow the letter of an escape by number. -/
def escapeDigits? (c : Char) : Option Nat :=
  [('x', 2), ('u', 4), ('U', 8)].lookup c

/-- The character of an escape, and how many characters it takes after the backslash. -/
def escape? (cs : List Char) : Option (Char × Nat) := do
  let c ← cs.head?
  match escapeDigits? c with
  | none => return (← escapeLetter? c, 1)
  | some digits =>
    let ds := (cs.drop 1).take digits
    let n ← Text.numberIn? 16 ds
    if ds.length = digits && n.isValidChar then return (Char.ofNat n, digits + 1) else none

/-- Reads the characters of a quoted scalar up to a gap or its end; the answer says whether an
escaped break ended the word. -/
def quotedWord (isSingle : Bool) (fuel : Nat) (read : List Char) (s : Scanner) :
    Option (List Char × Bool × Scanner) :=
  match fuel, s.rest with
  | 0, _ => none
  | _, [] => none
  | fuel + 1, c :: rest =>
    if isBlank c || isBreak c then some (read, false, s)
    else if isSingle then
      if c = '\'' then
        if rest.head? = some '\'' then (s.skip 2).quotedWord isSingle fuel (read ++ ['\''])
        else some (read, false, s)
      else (s.skip 1).quotedWord isSingle fuel (read ++ [c])
    else if c = '"' then some (read, false, s)
    else if c = '\\' then
      if rest.head?.any isBreak then some (read, true, (s.skip 1).takeBreak.2)
      else do
        let (e, n) ← escape? rest
        (s.skip (n + 1)).quotedWord isSingle fuel (read ++ [e])
    else (s.skip 1).quotedWord isSingle fuel (read ++ [c])

/-- Reads a quoted scalar whose opening quote has been passed, and its closing quote. -/
def quotedWords (isSingle : Bool) (fuel : Nat) (read : List Char) (s : Scanner) :
    Option (List Char × Scanner) :=
  match fuel with
  | 0 => none
  | fuel + 1 =>
    if s.column = 0 && (isDocumentMark '-' s.rest || isDocumentMark '.' s.rest) then none
    else do
      let (read, escapedBreak, s) ← s.quotedWord isSingle (s.rest.length + 1) read
      if s.rest.head? = some (if isSingle then '\'' else '"') then return (read, s.skip 1)
      let (gap, s) ← s.takeGap (-1) (s.rest.length + 1) (.blanks [])
      let text :=
        match gap with
        | .blanks cs => if escapedBreak then [] else cs
        | .breaks first more => if escapedBreak then first :: more else gap.text
      s.quotedWords isSingle fuel (read ++ text)

/-! ### Block scalars -/

/-- What becomes of the breaks at the end of a block scalar. -/
inductive Chomp
  | strip
  | clip
  | keep
deriving DecidableEq

/-- Reads the marks of a block scalar: how to treat its last breaks, and by how much it is indented
if that is given. -/
def blockMarks (cs : List Char) : Option (Chomp × Option Nat × Nat) :=
  let chomp? (c : Char) : Option Chomp :=
    if c = '+' then some .keep else if c = '-' then some .strip else none
  let digit? (c : Char) : Option Nat :=
    if '1' ≤ c && c ≤ '9' then some (c.toNat - 48) else none
  match cs with
  | [] => some (.clip, none, 0)
  | a :: rest =>
    match chomp? a, digit? a with
    | some chomp, _ =>
      match rest.head?.bind digit? with
      | some n => some (chomp, some n, 2)
      | none => if rest.head? = some '0' then none else some (chomp, none, 1)
    | none, some n =>
      match rest.head?.bind chomp? with
      | some chomp => some (chomp, some n, 2)
      | none => some (.clip, some n, 1)
    | none, none => if a = '0' then none else some (.clip, none, 0)

/-- Passes over empty lines before text of a block scalar and gives their breaks. `limit` is the
indentation if it is known; otherwise `seen` grows to the deepest column of blanks. -/
def blockBreaks (limit : Option Nat) (fuel : Nat) (seen : Nat) (breaks : List Char) (s : Scanner) :
    Option (List Char × Nat × Scanner) :=
  match fuel with
  | 0 => none
  | fuel + 1 =>
    let n := (s.rest.takeWhile (· = ' ')).length
    let n := match limit with
      | some l => min n (l - s.column)
      | none => n
    let s := s.skip n
    let seen := max seen s.column
    match s.rest with
    | c :: _ =>
      if c = '\t' && (limit.all fun l => s.column < l) then none
      else if isBreak c then
        let (b, s) := s.takeBreak
        s.blockBreaks limit fuel seen (breaks ++ [b])
      else some (breaks, seen, s)
    | [] => some (breaks, seen, s)

/-- Reads the lines of a block scalar. `pending` is the break after the last line and `breaks` are
those of the empty lines after it. -/
def blockLines (isLiteral : Bool) (column : Nat) (fuel : Nat) (read : List Char)
    (pending breaks : List Char) (wasBlank : Bool) (s : Scanner) :
    Option (List Char × List Char × List Char × Scanner) :=
  match fuel with
  | 0 => none
  | fuel + 1 =>
    if s.column ≠ column || s.rest.isEmpty then some (read, pending, breaks, s)
    else do
      let isBlankLine := s.rest.head?.any isBlank
      let folds := !isLiteral && pending = ['\n'] && !wasBlank && !isBlankLine
      let joint := if folds then (if breaks.isEmpty then [' '] else []) else pending
      let line := s.rest.takeWhile fun c => !isBreak c
      let read := read ++ joint ++ breaks ++ line
      let s := s.skip line.length
      if s.rest.isEmpty then return (read, [], [], s)
      let (b, s) := s.takeBreak
      let (breaks, _, s) ← s.blockBreaks (some column) (s.rest.length + 1) 0 []
      s.blockLines isLiteral column fuel read [b] breaks isBlankLine

/-- Reads a block scalar, from its first character on. -/
def blockScalar (isLiteral : Bool) (s : Scanner) : Option (List Char × Scanner) := do
  let s := s.skip 1
  let (chomp, given, n) ← blockMarks s.rest
  let s := s.skip n
  let s := s.skip (s.rest.takeWhile isBlank).length
  let s :=
    if s.rest.head? = some '#' then s.skip (s.rest.takeWhile fun c => !isBreak c).length else s
  if !s.rest.isEmpty && !s.rest.head?.any isBreak then none
  let s := if s.rest.isEmpty then s else s.takeBreak.2
  let outer := (max s.indent 0).toNat
  let limit := given.map fun n => if 0 ≤ s.indent then s.indent.toNat + n else n
  let (breaks, seen, s) ← s.blockBreaks limit (s.rest.length + 1) 0 []
  let column := limit.getD (max (max seen (if 0 ≤ s.indent then outer + 1 else 0)) 1)
  let (read, pending, breaks, s) ←
    s.blockLines isLiteral column (s.rest.length + 1) [] [] breaks false
  let tail :=
    match chomp with
    | .strip => []
    | .clip => pending
    | .keep => pending ++ breaks
  return (read ++ tail, s)

end LayerGraph.Yaml.Scanner
