import LayerGraph.Decimal.Shortest
import LayerGraph.Text.Debug

/-!
# What is wrong with a JSON text

A reader stops at the first fault. A fault knows its cause and how much of the text was left when it
arose, counted in bytes of UTF-8; line and column follow from that and the whole text, so a reader
needs to know nothing about what stands before its input.
-/

namespace LayerGraph.Json

/-- What stood where something else was wanted. -/
inductive Found
  | null
  | bool (b : Bool)
  | int (n : Int)
  | float (x : Float)
  | str (s : String)
  | sequence
  | map
deriving Repr

/-- What can be wrong with a text: its form, or that it does not describe the wanted value. -/
inductive Cause
  | endInValue
  | endInString
  | endInList
  | endInObject
  | expectedValue
  | expectedWord
  | expectedCommaOrBracket
  | expectedCommaOrBrace
  | expectedColon
  | trailingComma
  | keyNotText
  | trailingCharacters
  | invalidNumber
  | numberOutOfRange
  | invalidEscape
  | unfinishedSurrogatePair
  | loneSurrogate
  | controlCharacter
  | wrongType (found : Found) (wanted : String)
  | integerOutOfRange (n : Nat) (wanted : String)
  | unknownVariant (variant : String) (known : List String)
  | duplicateField (field : String)
  | missingField (field : String)
  | wrongLength (length : Nat) (wanted : String)
deriving Repr

/-- A cause and the number of bytes of the text that were left. -/
structure Fault where
  cause : Cause
  left : Nat
deriving Repr

/-- Floats in messages are written positionally from a hundred-thousandth up to ten quadrillions. -/
def floatFormat : Decimal.FloatFormat := ⟨-5, 16⟩

/-- How a message names what it found. -/
def Found.text : Found → String
  | null => "null"
  | bool b => if b then "boolean \x60true\x60" else "boolean \x60false\x60"
  | int n => "integer \x60" ++ Decimal.intText n ++ "\x60"
  | float x => "floating point \x60" ++ floatFormat.text x ++ "\x60"
  | str s => "string " ++ Text.debugQuote s
  | sequence => "sequence"
  | map => "map"

/-- The wording of a cause. -/
def Cause.message : Cause → String
  | endInValue => "EOF while parsing a value"
  | endInString => "EOF while parsing a string"
  | endInList => "EOF while parsing a list"
  | endInObject => "EOF while parsing an object"
  | expectedValue => "expected value"
  | expectedWord => "expected ident"
  | expectedCommaOrBracket => "expected \x60,\x60 or \x60]\x60"
  | expectedCommaOrBrace => "expected \x60,\x60 or \x60\x7d\x60"
  | expectedColon => "expected \x60:\x60"
  | trailingComma => "trailing comma"
  | keyNotText => "key must be a string"
  | trailingCharacters => "trailing characters"
  | invalidNumber => "invalid number"
  | numberOutOfRange => "number out of range"
  | invalidEscape => "invalid escape"
  | unfinishedSurrogatePair => "unexpected end of hex escape"
  | loneSurrogate => "lone leading surrogate in hex escape"
  | controlCharacter => "control character (\\u0000-\\u001F) found while parsing a string"
  | wrongType found wanted => "invalid type: " ++ found.text ++ ", expected " ++ wanted
  | integerOutOfRange n wanted =>
    "invalid value: integer \x60" ++ Decimal.natText n ++ "\x60, expected " ++ wanted
  | unknownVariant variant known =>
    let ticked (s : String) : String := "\x60" ++ s ++ "\x60"
    "unknown variant " ++ ticked variant ++ ", expected one of " ++
      ", ".intercalate (known.map ticked)
  | duplicateField field => "duplicate field \x60" ++ field ++ "\x60"
  | missingField field => "missing field \x60" ++ field ++ "\x60"
  | wrongLength length wanted =>
    "invalid length " ++ Decimal.natText length ++ ", expected " ++ wanted

/-- The number of bytes of a text in UTF-8. -/
def byteCount (cs : List Char) : Nat :=
  cs.foldr (fun c n => c.utf8Size + n) 0

/-- Line and column after the first `bytes` bytes of a text: lines count from one, and the column is
the number of bytes of the line so far. -/
def position : List Char → Nat → Nat × Nat :=
  go 1 0
where
  /-- The walk, with the line and column reached. -/
  go (line column : Nat) : List Char → Nat → Nat × Nat
    | [], _ => (line, column)
    | c :: rest, bytes =>
      if bytes = 0 then (line, column)
      else if c = '\n' then go (line + 1) 0 rest (bytes - 1)
      else if bytes < c.utf8Size then (line, column + bytes)
      else go line (column + c.utf8Size) rest (bytes - c.utf8Size)

/-- The message of a fault in a text: its cause and where it arose. -/
def Fault.message (text : List Char) (f : Fault) : String :=
  let (line, column) := position text (byteCount text - f.left)
  f.cause.message ++ " at line " ++ Decimal.natText line ++ " column " ++ Decimal.natText column

end LayerGraph.Json
