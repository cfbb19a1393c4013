import LayerGraph.Decimal.Digits
import LayerGraph.Text.Base

/-!
# What plain scalars stand for

A scalar without quotes may stand for nothing, a truth value or a number; every other one is a text.
Numbers have no leading zeros, and integers may be written in base sixteen, eight or two. Only
decimals that round to a finite double are numbers.
-/

namespace LayerGraph.Yaml

/-- The spellings of nothing. -/
def isNull (text : String) : Bool :=
  text ∈ ["", "~", "null", "Null", "NULL"]

/-- The spellings of the truth values. -/
def isBool (text : String) : Bool :=
  text ∈ ["true", "True", "TRUE", "false", "False", "FALSE"]

/-! ## Integers -/

/-- Drops one of the given signs in front. -/
def dropSign (signs : List Char) : List Char → List Char
  | [] => []
  | c :: rest => if c ∈ signs then rest else c :: rest

/-- The number behind the mark of a base. -/
def markedNumber? : List Char → Option Nat
  | '0' :: 'x' :: ds => Text.numberIn? 16 ds
  | '0' :: 'o' :: ds => Text.numberIn? 8 ds
  | '0' :: 'b' :: ds => Text.numberIn? 2 ds
  | _ => none

/-- Several digits with a zero in front are a text. -/
def hasLeadingZero (cs : List Char) : Bool :=
  1 < cs.length && cs.head? = some '0' && cs.all Decimal.isDigit

/-- The number without a sign that a row of characters stands for. -/
def number? (cs : List Char) : Option Nat :=
  markedNumber? cs <|> if hasLeadingZero cs then none else Text.numberIn? 10 cs

/-- The natural number below a limit that a plain scalar stands for; it may have a plus in front. -/
def natural? (limit : Nat) (text : String) : Option Nat :=
  (number? (dropSign ['+'] text.toList)).filter (· < limit)

/-- Whether a plain scalar stands for an integer of at most 128 bits. -/
def isInteger (text : String) : Bool :=
  (natural? (Nat.pow 2 128) text).isSome ||
    match text.toList with
    | '-' :: cs => (number? cs).any (· ≤ Nat.pow 2 127)
    | _ => false

/-! ## Decimals -/

/-- The exponent behind its letter: digits, with a sign if need be. -/
def exponent? (cs : List Char) : Option Int :=
  match cs with
  | '-' :: ds => (Text.numberIn? 10 ds).map fun n => -(n : Int)
  | '+' :: ds => (Text.numberIn? 10 ds).map Int.ofNat
  | ds => (Text.numberIn? 10 ds).map Int.ofNat

/-- The digits of a decimal and the power of ten that they are multiplied by. A point needs a digit
before or after it. -/
def decimal? (cs : List Char) : Option (List Char × Int) := do
  let whole := cs.takeWhile Decimal.isDigit
  let rest := cs.dropWhile Decimal.isDigit
  let (fraction, rest) :=
    match rest with
    | '.' :: rest => (rest.takeWhile Decimal.isDigit, rest.dropWhile Decimal.isDigit)
    | rest => ([], rest)
  if whole.isEmpty && fraction.isEmpty then none
  let exponent ←
    match rest with
    | [] => some 0
    | c :: rest => if c = 'e' || c = 'E' then exponent? rest else none
  return (whole ++ fraction, exponent - fraction.length)

/-- Whether a decimal rounds to a finite double: it lies below the middle between the largest double
and the power of two after it. -/
def roundsToFinite (ds : List Char) (exponent : Int) : Bool :=
  let ds := ds.dropWhile (· = '0')
  let magnitude := exponent + ds.length
  if ds.isEmpty || magnitude ≤ 308 then true
  else if 309 < magnitude then false
  else
    Decimal.value ds * Nat.pow 10 exponent.toNat <
      (Nat.pow 2 1024 - Nat.pow 2 970) * Nat.pow 10 (-exponent).toNat

/-- Whether a plain scalar stands for a decimal, an infinity or what is not a number. -/
def isDecimal (text : String) : Bool :=
  let unsigned := dropSign ['+', '-'] text.toList
  text ∈ [".nan", ".NaN", ".NAN"] || String.ofList unsigned ∈ [".inf", ".Inf", ".INF"] ||
    (decimal? unsigned).any fun (ds, exponent) => roundsToFinite ds exponent

/-- Whether a plain scalar stands for its own text and looks like nothing else. -/
def isText (text : String) : Bool :=
  !isNull text && !isBool text && !isInteger text && !isDecimal text

end LayerGraph.Yaml
