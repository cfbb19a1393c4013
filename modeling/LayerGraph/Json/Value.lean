import LayerGraph.Decimal.Digits

/-!
# JSON values and their texts

Members keep the order in which they are listed, so a report has one text. `compact` has no blanks
at all and is what a record file holds, one value a line; `pretty` breaks lines and indents by two
blanks.
-/

namespace LayerGraph.Json

/-- A JSON value without fractions: all numbers of the reports are integers. -/
inductive Value
  | null
  | bool (b : Bool)
  | int (n : Int)
  | str (s : String)
  | arr (items : List Value)
  | obj (members : List (String × Value))
deriving Inhabited, Repr

/-- The text that stands for a character inside quotes. Only the quote, the backslash and the
controls below U+0020 are escaped. -/
def escapeChar (c : Char) : List Char :=
  if c = '"' then ['\\', '"']
  else if c = '\\' then ['\\', '\\']
  else if c.toNat = 8 then ['\\', 'b']
  else if c.toNat = 9 then ['\\', 't']
  else if c.toNat = 10 then ['\\', 'n']
  else if c.toNat = 12 then ['\\', 'f']
  else if c.toNat = 13 then ['\\', 'r']
  else if c.toNat < 32 then
    ['\\', 'u', '0', '0', if c.toNat < 16 then '0' else '1', hexDigit (c.toNat % 16)]
  else [c]
where
  /-- A hexadecimal digit, in lower case. -/
  hexDigit (d : Nat) : Char :=
    if d < 10 then Char.ofNat (48 + d) else Char.ofNat (87 + d)

/-- A text in quotes. -/
def quote (s : String) : String :=
  String.ofList ('"' :: s.toList.flatMap escapeChar ++ ['"'])

namespace Value

mutual

/-- The text without blanks. -/
def compact : Value → String
  | null => "null"
  | bool b => if b then "true" else "false"
  | int n => Decimal.intText n
  | str s => quote s
  | arr items => "[" ++ ",".intercalate (compactItems items) ++ "]"
  | obj members => "\x7b" ++ ",".intercalate (compactMembers members) ++ "\x7d"

/-- The texts of the items of an array. -/
def compactItems : List Value → List String
  | [] => []
  | v :: rest => v.compact :: compactItems rest

/-- The texts of the members of an object. -/
def compactMembers : List (String × Value) → List String
  | [] => []
  | (k, v) :: rest => (quote k ++ ":" ++ v.compact) :: compactMembers rest

end

/-- A new line, indented by two blanks a level. -/
def newline (depth : Nat) : String :=
  String.ofList ('\n' :: List.replicate (2 * depth) ' ')

mutual

/-- The text with one item or member a line. What is empty stays on its line. -/
def prettyAt (depth : Nat) : Value → String
  | arr (v :: rest) =>
    let lines := prettyItems (depth + 1) (v :: rest)
    "[" ++ newline (depth + 1) ++ ("," ++ newline (depth + 1)).intercalate lines ++
      newline depth ++ "]"
  | obj (m :: rest) =>
    let lines := prettyMembers (depth + 1) (m :: rest)
    "\x7b" ++ newline (depth + 1) ++ ("," ++ newline (depth + 1)).intercalate lines ++
      newline depth ++ "\x7d"
  | arr [] => "[]"
  | obj [] => "\x7b\x7d"
  | null => "null"
  | bool b => if b then "true" else "false"
  | int n => Decimal.intText n
  | str s => quote s

/-- The texts of the items of an array. -/
def prettyItems (depth : Nat) : List Value → List String
  | [] => []
  | v :: rest => v.prettyAt depth :: prettyItems depth rest

/-- The texts of the members of an object. -/
def prettyMembers (depth : Nat) : List (String × Value) → List String
  | [] => []
  | (k, v) :: rest => (quote k ++ ": " ++ v.prettyAt depth) :: prettyMembers depth rest

end

/-- The text with one item or member a line. -/
def pretty (v : Value) : String :=
  v.prettyAt 0

/-- A natural number as a value. -/
def nat (n : Nat) : Value := .int n

/-- An optional value, `null` when there is none. -/
def orNull : Option Value → Value
  | none => .null
  | some v => v

/-- A text array. -/
def texts (ss : List String) : Value := .arr (ss.map .str)

end Value

end LayerGraph.Json
