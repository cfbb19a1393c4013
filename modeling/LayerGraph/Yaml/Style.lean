import LayerGraph.Yaml.Plain
import LayerGraph.Yaml.Token

/-!
# How texts are written as scalars

A text is written plainly if it reads back as that text. Otherwise it is put in single quotes, or in
double quotes if it holds what single quotes cannot show. A text of several lines is written line by
line below a bar.
-/

namespace LayerGraph.Yaml

/-- The styles of scalars. -/
inductive Style
  | plain
  | singleQuoted
  | doubleQuoted
  | literal
deriving DecidableEq, Repr

/-! ## What a text holds -/

/-- The characters that are shown as they are: no controls and no byte order mark. -/
def isShown (c : Char) : Bool :=
  let n := c.toNat
  n = 10 || (0x20 ≤ n && n ≤ 0x7E) || (0xA0 ≤ n && n ≤ 0xFFFD && n ≠ 0xFEFF) || 0x10000 ≤ n

/-- Whether two neighbours in a text stand in a relation. -/
def hasPair (related : Char → Char → Bool) (cs : List Char) : Bool :=
  (cs.zip (cs.drop 1)).any fun (a, b) => related a b

/-- What ends a word when a text is written: blanks, breaks and the zero character. -/
def isGap (c : Char) : Bool :=
  isBlank c || isBreak c || c.toNat = 0

/-- Whether a text holds marks of the format: at its front, a document mark, a bracket, a quote or
the like, or the mark of an entry or a key; a colon before a gap or the end; a number sign after a
gap. -/
def hasMark (cs : List Char) : Bool :=
  let fronts : List Char :=
    ['#', ',', '[', ']', '\x7b', '\x7d', '&', '*', '!', '|', '>', '\'', '"', '%', '@', '\x60']
  cs.take 3 = ['-', '-', '-'] || cs.take 3 = ['.', '.', '.'] ||
    (match cs with
      | [] => false
      | c :: rest => c ∈ fronts || ((c = '-' || c = '?') && rest.head?.all isGap)) ||
    hasPair (fun a b => a = ':' && isGap b) cs || cs.getLast? = some ':' ||
    hasPair (fun a b => isGap a && b = '#') cs

def allowsPlain (cs : List Char) : Bool :=
  cs.all isShown && !cs.any isBreak && !hasMark cs && cs.head? ≠ some ' ' && cs.getLast? ≠ some ' '

def allowsSingleQuoted (cs : List Char) : Bool :=
  cs.all isShown && !hasPair (fun a b => isBreak a && b = ' ') cs &&
    !hasPair (fun a b => a = ' ' && isBreak b) cs

def allowsLiteral (cs : List Char) : Bool :=
  cs.all isShown && !hasPair (fun a b => a = ' ' && isBreak b) cs && cs.getLast? ≠ some ' '

/-- The style in which a text is written. -/
def Style.ofText (text : String) : Style :=
  let cs := text.toList
  if '\n' ∈ cs then if allowsLiteral cs then .literal else .doubleQuoted
  else if isText text && !hasLeadingZero (dropSign ['+', '-'] cs) && allowsPlain cs then
    .plain
  else if allowsSingleQuoted cs then .singleQuoted
  else .doubleQuoted

/-! ## Writing -/

/-- A text with a margin in front of each line that is not empty. `isStart` tells whether a line
begins here. -/
def withMargin (margin : Nat) (isStart : Bool) : List Char → List Char
  | [] => []
  | c :: rest =>
    if isBreak c then c :: withMargin margin true rest
    else (if isStart then List.replicate margin ' ' else []) ++ c :: withMargin margin false rest

/-- A text in single quotes, in which a quote is written twice. -/
def singleQuoted (margin : Nat) (cs : List Char) : List Char :=
  let body := cs.flatMap fun c => if c = '\'' then ['\'', '\''] else [c]
  let tail := if cs.getLast?.any isBreak then List.replicate margin ' ' else []
  '\'' :: withMargin margin false body ++ tail ++ ['\'']

/-- A character between double quotes. What is not shown is written with its letter, or else with
its number in as few digits as there are forms for. -/
def doubleQuotedChar (c : Char) : List Char :=
  let letters : List (Nat × Char) :=
    [(0, '0'), (7, 'a'), (8, 'b'), (9, 't'), (10, 'n'), (11, 'v'), (12, 'f'), (13, 'r'), (27, 'e'),
     (34, '"'), (92, '\\'), (0x85, 'N'), (0x2028, 'L'), (0x2029, 'P')]
  let n := c.toNat
  match letters.lookup n with
  | some letter => ['\\', letter]
  | none =>
    if isShown c then [c]
    else if n ≤ 0xFF then '\\' :: 'x' :: Text.upperHex 2 n
    else '\\' :: 'u' :: Text.upperHex 4 n

/-- The marks after the bar: a margin if the first line does not show it, and what to do with the
breaks at the end. -/
def literalMarks (cs : List Char) : List Char :=
  let margin := if cs.head?.any fun c => c = ' ' || isBreak c then ['2'] else []
  let breaks := (cs.reverse.takeWhile isBreak).length
  margin ++ if breaks = 0 then ['-'] else if breaks = 1 && breaks < cs.length then [] else ['+']

/-- A text as a scalar at the end of a line, and the end of that line. Further lines have a
margin. -/
def scalarLine (margin : Nat) (text : String) : String :=
  let cs := text.toList
  String.ofList <|
    match Style.ofText text with
    | .plain => cs ++ ['\n']
    | .singleQuoted => singleQuoted margin cs ++ ['\n']
    | .doubleQuoted => '"' :: cs.flatMap doubleQuotedChar ++ ['"', '\n']
    | .literal =>
      let tail := if cs.getLast?.any isBreak then [] else ['\n']
      '|' :: literalMarks cs ++ '\n' :: withMargin margin true cs ++ tail

end LayerGraph.Yaml
