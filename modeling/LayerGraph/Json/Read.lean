import LayerGraph.Json.Scan

/-!
# Reading JSON values of a wanted shape

A reader asks for a shape: a text, a list of texts, an integer of 64 bits, one of a few words. It
gives the value and what is left of the text, or the first fault. Blanks before a value are skipped;
the text after it is not looked at.
-/

namespace LayerGraph.Json

/-- Reads a value of another shape than the wanted one, only to say what it is. Lists and objects
are not read at all. -/
def refuse {α : Type} (wanted : String) (cs : List Char) : Except Fault α :=
  let wrong (found : Found) (rest : List Char) : Except Fault α :=
    .error (faultAfter (.wrongType found wanted) rest)
  match cs with
  | [] => .error ⟨.endInValue, 0⟩
  | 'n' :: rest => do wrong .null (← scanWord ['u', 'l', 'l'] rest)
  | 't' :: rest => do wrong (.bool true) (← scanWord ['r', 'u', 'e'] rest)
  | 'f' :: rest => do wrong (.bool false) (← scanWord ['a', 'l', 's', 'e'] rest)
  | '"' :: rest => do
    let (s, rest) ← scanQuoted rest
    wrong (.str s) rest
  | '-' :: rest => do
    let (n, rest) ← scanNumber false rest
    wrong n.found rest
  | '[' :: _ => wrong .sequence cs
  | '\x7b' :: _ => wrong .map cs
  | c :: _ =>
    if Decimal.isDigit c then do
      let (n, rest) ← scanNumber true cs
      wrong n.found rest
    else .error (faultAt .expectedValue cs)

/-- Reads a text. -/
def readText (cs : List Char) : Except Fault (String × List Char) :=
  match skipSpaces cs with
  | '"' :: rest => scanQuoted rest
  | rest => refuse "a string" rest

/-- Reads what may be `null`. -/
def readOptional {α : Type} (read : List Char → Except Fault (α × List Char)) (cs : List Char) :
    Except Fault (Option α × List Char) :=
  match skipSpaces cs with
  | 'n' :: rest => do return (none, ← scanWord ['u', 'l', 'l'] rest)
  | rest => do
    let (a, rest) ← read rest
    return (some a, rest)

/-- Reads an integer of 64 bits. -/
def readInteger (cs : List Char) : Except Fault (Int × List Char) :=
  let wanted := "i64"
  let check (n : Number) (rest : List Char) : Except Fault (Int × List Char) :=
    match n with
    | .float x => .error (faultAfter (.wrongType (.float x) wanted) rest)
    | .int i =>
      if i < Nat.pow 2 63 then .ok (i, rest)
      else .error (faultAfter (.integerOutOfRange i.toNat wanted) rest)
  match skipSpaces cs with
  | '-' :: rest => do
    let (n, rest) ← scanNumber false rest
    check n rest
  | [] => .error ⟨.endInValue, 0⟩
  | c :: rest =>
    if Decimal.isDigit c then do
      let (n, rest) ← scanNumber true (c :: rest)
      check n rest
    else refuse wanted (c :: rest)

/-- What follows an item of a list: another one, or the end. -/
def readListNext (cs : List Char) : Except Fault (Bool × List Char) :=
  match skipSpaces cs with
  | [] => .error ⟨.endInList, 0⟩
  | c :: rest =>
    if c = ']' then .ok (false, rest)
    else if c = ',' then
      match skipSpaces rest with
      | [] => .error ⟨.endInValue, 0⟩
      | d :: more =>
        if d = ']' then .error (faultAt .trailingComma (d :: more)) else .ok (true, d :: more)
    else .error (faultAt .expectedCommaOrBracket (c :: rest))

/-- Reads the items of a list of texts; each takes at least one character, so the length of the text
is enough `fuel`. -/
def readTextItems (fuel : Nat) (read : List String) (cs : List Char) :
    Except Fault (List String × List Char) :=
  match fuel with
  | 0 => .error ⟨.endInList, 0⟩
  | fuel + 1 => do
    let (s, rest) ← readText cs
    let (more, rest) ← readListNext rest
    if more then readTextItems fuel (s :: read) rest else return ((s :: read).reverse, rest)

/-- Reads a list of texts. -/
def readTexts (cs : List Char) : Except Fault (List String × List Char) :=
  match skipSpaces cs with
  | '[' :: rest =>
    match skipSpaces rest with
    | [] => .error ⟨.endInList, 0⟩
    | c :: more =>
      if c = ']' then .ok ([], more) else readTextItems (more.length + 1) [] (c :: more)
  | rest => refuse "a sequence" rest

/-! ## One of a few words -/

/-- The value of a word, or the fault that the word is not known. -/
def variantOf {α : Type} (known : List (String × α)) (word : String) (rest : List Char) :
    Except Fault α :=
  match known.lookup word with
  | some a => .ok a
  | none => .error (faultAfter (.unknownVariant word (known.map (·.1))) rest)

/-- Reads one of the known words: in quotes, or as the only key of an object whose value is
`null`. -/
def readVariant {α : Type} (known : List (String × α)) (cs : List Char) :
    Except Fault (α × List Char) :=
  match skipSpaces cs with
  | [] => .error ⟨.endInValue, 0⟩
  | '"' :: rest => do
    let (word, rest) ← scanQuoted rest
    return (← variantOf known word rest, rest)
  | '\x7b' :: rest =>
    match skipSpaces rest with
    | [] => .error ⟨.endInObject, 0⟩
    | '\x7d' :: rest => .error (faultAt .expectedValue ('\x7d' :: rest))
    | '"' :: rest => do
      let (word, rest) ← scanQuoted rest
      let value ← variantOf known word rest
      let rest ← colon rest
      let rest ← unit rest
      match skipSpaces rest with
      | [] => .error ⟨.endInObject, 0⟩
      | d :: more =>
        if d = '\x7d' then .ok (value, more) else .error (faultAfter .expectedValue (d :: more))
    | rest => .error (faultAt .keyNotText rest)
  | rest => .error (faultAt .expectedValue rest)
where
  /-- Reads the colon after a key. -/
  colon (cs : List Char) : Except Fault (List Char) :=
    match skipSpaces cs with
    | [] => .error ⟨.endInObject, 0⟩
    | c :: rest => if c = ':' then .ok rest else .error (faultAt .expectedColon (c :: rest))
  /-- Reads the `null` that stands for the value of a word without one. -/
  unit (cs : List Char) : Except Fault (List Char) :=
    match skipSpaces cs with
    | 'n' :: rest => scanWord ['u', 'l', 'l'] rest
    | rest => refuse "unit" rest

/-- Reads a whole text: after the value there are only blanks. -/
def readWhole {α : Type} (read : List Char → Except Fault (α × List Char)) (cs : List Char) :
    Except Fault α := do
  let (a, rest) ← read cs
  match skipSpaces rest with
  | [] => return a
  | c :: more => .error (faultAt .trailingCharacters (c :: more))

end LayerGraph.Json
