import LayerGraph.Json.Fault
import LayerGraph.Text.Base

/-!
# Scanning JSON texts

The words of the format, read from the front of a text: blanks, words, quoted texts, numbers. Each
scanner gives what it read and what is left; what is left is always a tail of the input.

There are two ways over a value. One reads it; the other skips a value nobody asked for and checks
its form alone, at any depth.
-/

namespace LayerGraph.Json

/-- The characters between words. -/
def isSpace (c : Char) : Bool :=
  c = ' ' || c = '\n' || c = '\t' || c = '\r'

def skipSpaces (cs : List Char) : List Char :=
  cs.dropWhile isSpace

/-- A fault at the next byte of what is left, or at the end. -/
def faultAt (cause : Cause) (rest : List Char) : Fault :=
  ⟨cause, byteCount rest - 1⟩

/-- A fault after all that was read. -/
def faultAfter (cause : Cause) (rest : List Char) : Fault :=
  ⟨cause, byteCount rest⟩

/-- Reads the rest of a word such as `null`. -/
def scanWord : List Char → List Char → Except Fault (List Char)
  | [], cs => .ok cs
  | _ :: _, [] => .error ⟨.endInValue, 0⟩
  | w :: word, c :: cs =>
    if c = w then scanWord word cs else .error (faultAt .expectedWord (c :: cs))

/-! ## Quoted texts -/

/-- The value of four hexadecimal digits. -/
def hexValue4? (a b c d : Char) : Option Nat := do
  let a ← Text.hexValue? a
  let b ← Text.hexValue? b
  let c ← Text.hexValue? c
  let d ← Text.hexValue? d
  return ((a * 16 + b) * 16 + c) * 16 + d

/-- Reads four hexadecimal digits. Four bytes are read before they are looked at. -/
def scanHex (cs : List Char) : Except Fault (Nat × List Char) :=
  match cs with
  | a :: b :: c :: d :: rest =>
    match hexValue4? a b c d with
    | some n => .ok (n, rest)
    | none => .error ⟨.invalidEscape, byteCount cs - 4⟩
  | _ =>
    if byteCount cs < 4 then .error ⟨.endInString, 0⟩
    else .error ⟨.invalidEscape, byteCount cs - 4⟩

/-- The character of an escape with one letter. -/
def escapeLetter? (c : Char) : Option Char :=
  if c = '"' then some '"'
  else if c = '\\' then some '\\'
  else if c = '/' then some '/'
  else if c = 'b' then some '\x08'
  else if c = 'f' then some '\x0c'
  else if c = 'n' then some '\n'
  else if c = 'r' then some '\r'
  else if c = 't' then some '\t'
  else none

/-- Reads one wanted character between the halves of a surrogate pair. -/
def scanPairMark (wanted : Char) : List Char → Except Fault (List Char)
  | [] => .error ⟨.endInString, 0⟩
  | c :: cs =>
    if c = wanted then .ok cs else .error (faultAt .unfinishedSurrogatePair (c :: cs))

/-- Reads what follows the `\u` of an escape: one code unit, or the two of a surrogate pair. -/
def scanCodeUnits (cs : List Char) : Except Fault (Char × List Char) := do
  let (n, cs) ← scanHex cs
  if 0xDC00 ≤ n ∧ n ≤ 0xDFFF then .error (faultAfter .loneSurrogate cs)
  else if n < 0xD800 ∨ 0xDBFF < n then .ok (Char.ofNat n, cs)
  else
    let cs ← scanPairMark '\\' cs
    let cs ← scanPairMark 'u' cs
    let (low, cs) ← scanHex cs
    if low < 0xDC00 ∨ 0xDFFF < low then .error (faultAfter .loneSurrogate cs)
    else .ok (Char.ofNat ((n - 0xD800) * 0x400 + (low - 0xDC00) + 0x10000), cs)

/-- Reads what follows the backslash of an escape. -/
def scanEscape (cs : List Char) : Except Fault (Char × List Char) :=
  match cs with
  | [] => .error ⟨.endInString, 0⟩
  | c :: rest =>
    if c = 'u' then scanCodeUnits rest
    else
      match escapeLetter? c with
      | some e => .ok (e, rest)
      | none => .error (faultAt .invalidEscape cs)

/-- Reads a quoted text up to its closing quote; `fuel` bounds the number of characters. -/
def scanText (fuel : Nat) (read : List Char) (cs : List Char) :
    Except Fault (String × List Char) :=
  match fuel, cs with
  | 0, _ => .error ⟨.endInString, 0⟩
  | _, [] => .error ⟨.endInString, 0⟩
  | fuel + 1, c :: rest =>
    if c = '"' then .ok (String.ofList read.reverse, rest)
    else if c = '\\' then
      match scanEscape rest with
      | .ok (e, rest) => scanText fuel (e :: read) rest
      | .error f => .error f
    else if c.toNat < 32 then .error (faultAt .controlCharacter cs)
    else scanText fuel (c :: read) rest

/-- Reads a quoted text whose opening quote has been read. -/
def scanQuoted (cs : List Char) : Except Fault (String × List Char) :=
  scanText (cs.length + 1) [] cs

/-- Passes over an escape. Its code unit is not looked at. -/
def skipEscape (cs : List Char) : Except Fault (List Char) :=
  match cs with
  | [] => .error ⟨.endInString, 0⟩
  | c :: rest =>
    if c = 'u' then (scanHex rest).map (·.2)
    else if (escapeLetter? c).isSome then .ok rest
    else .error (faultAt .invalidEscape cs)

/-- Passes over a quoted text. A control in it is found before it is read. -/
def skipText (fuel : Nat) (cs : List Char) : Except Fault (List Char) :=
  match fuel, cs with
  | 0, _ => .error ⟨.endInString, 0⟩
  | _, [] => .error ⟨.endInString, 0⟩
  | fuel + 1, c :: rest =>
    if c = '"' then .ok rest
    else if c = '\\' then
      match skipEscape rest with
      | .ok rest => skipText fuel rest
      | .error f => .error f
    else if c.toNat < 32 then .error (faultAfter .controlCharacter cs)
    else skipText fuel rest

/-- Passes over a quoted text whose opening quote has been read. -/
def skipQuoted (cs : List Char) : Except Fault (List Char) :=
  skipText (cs.length + 1) cs

/-! ## Numbers -/

/-- A number as a reader sees it: integers of 64 bits, and doubles for all else. -/
inductive Number
  | int (n : Int)
  | float (x : Float)
deriving Repr

def Number.found : Number → Found
  | int n => .int n
  | float x => .float x

/-- The largest significand that is kept; digits that would go beyond it are dropped. -/
def maxSignificand : Nat := UInt64.size - 1

/-- Adds digits to a significand as long as it does not go beyond its limit, and counts them. -/
def addDigits (significand : Nat) (count : Nat) : List Char → Nat × Nat
  | [] => (significand, count)
  | d :: ds =>
    let next := significand * 10 + Decimal.digitValue d
    if next ≤ maxSignificand then addDigits next (count + 1) ds else (significand, count)

/-- The double nearest to a power of ten. -/
def powerOfTen (n : Nat) : Float :=
  Float.ofScientific 1 false n

/-- Scales a significand by a power of ten, in steps that a double can hold; `none` when the result
is beyond the largest double. -/
def scale (fuel : Nat) (x : Float) (exponent : Int) : Option Float :=
  match fuel with
  | 0 => some x
  | fuel + 1 =>
    if exponent.natAbs ≤ 308 then
      if 0 ≤ exponent then
        let y := x * powerOfTen exponent.natAbs
        if y.isInf then none else some y
      else some (x / powerOfTen exponent.natAbs)
    else if x == 0 then some x
    else if 0 ≤ exponent then none
    else scale fuel (x / powerOfTen 308) (exponent + 308)

/-- The double for a significand and a decimal exponent. -/
def scaled? (positive : Bool) (significand : Nat) (exponent : Int) : Option Float :=
  (scale (exponent.natAbs / 308 + 2) significand.toUInt64.toFloat exponent).map fun x =>
    if positive then x else -x

/-- A double, or the fault that it is out of range. -/
def floatOr (rest : List Char) : Option Float → Except Fault (Number × List Char)
  | some x => .ok (.float x, rest)
  | none => .error (faultAfter .numberOutOfRange rest)

/-- The largest decimal exponent that is added up; beyond it only the signs matter. -/
def maxExponent : Nat := Nat.pow 2 31 - 1

/-- Adds digits to an exponent up to its limit. What is left is `none` when it was passed, and then
the text after the digit that passed it is given. -/
def addExponent (exponent : Nat) : List Char → Option Nat × List Char
  | [] => (some exponent, [])
  | c :: cs =>
    if Decimal.isDigit c then
      let next := exponent * 10 + Decimal.digitValue c
      if next ≤ maxExponent then addExponent next cs else (none, cs)
    else (some exponent, c :: cs)

/-- Reads an exponent, after its letter. -/
def scanExponent (positive : Bool) (significand : Nat) (start : Int) (cs : List Char) :
    Except Fault (Number × List Char) :=
  let (up, cs) :=
    match cs with
    | '+' :: rest => (true, rest)
    | '-' :: rest => (false, rest)
    | _ => (true, cs)
  match cs with
  | [] => .error ⟨.endInValue, 0⟩
  | c :: rest =>
    if Decimal.isDigit c then
      match addExponent (Decimal.digitValue c) rest with
      | (some e, rest) =>
        let exponent :=
          if up then min (start + e) maxExponent else max (start - e) (-maxExponent - 1)
        floatOr rest (scaled? positive significand exponent)
      | (none, rest) =>
        if significand ≠ 0 && up then .error (faultAfter .numberOutOfRange rest)
        else .ok (.float (if positive then 0.0 else -0.0), rest.dropWhile Decimal.isDigit)
    else .error (faultAt .invalidNumber cs)

/-- Reads an exponent if one follows. -/
def scanExponent? (positive : Bool) (significand : Nat) (start : Int) (cs : List Char) :
    Except Fault (Number × List Char) :=
  match cs with
  | 'e' :: rest | 'E' :: rest => scanExponent positive significand start rest
  | _ => floatOr cs (scaled? positive significand start)

/-- Reads a fraction, after its point. -/
def scanFraction (positive : Bool) (significand : Nat) (start : Int) (cs : List Char) :
    Except Fault (Number × List Char) :=
  let ds := cs.takeWhile Decimal.isDigit
  let rest := cs.dropWhile Decimal.isDigit
  if ds.isEmpty then
    if rest.isEmpty then .error ⟨.endInValue, 0⟩ else .error (faultAt .invalidNumber rest)
  else
    let (significand, count) := addDigits significand 0 ds
    scanExponent? positive significand (start - count) rest

/-- Reads a number, after its sign. -/
def scanNumber (positive : Bool) (cs : List Char) : Except Fault (Number × List Char) :=
  let ds := cs.takeWhile Decimal.isDigit
  let rest := cs.dropWhile Decimal.isDigit
  match ds with
  | [] => if cs.isEmpty then .error ⟨.endInValue, 0⟩ else .error (faultAt .invalidNumber cs)
  | '0' :: d :: more => .error (faultAt .invalidNumber (d :: more ++ rest))
  | _ =>
    let (significand, count) := addDigits 0 0 ds
    let dropped : Int := ds.length - count
    match rest with
    | '.' :: more => scanFraction positive significand dropped more
    | 'e' :: more | 'E' :: more => scanExponent positive significand dropped more
    | _ =>
      if dropped ≠ 0 then floatOr rest (scaled? positive significand dropped)
      else if positive then .ok (.int significand, rest)
      else if significand = 0 ∨ significand > Nat.pow 2 63 then
        .ok (.float (-(significand.toUInt64.toFloat)), rest)
      else .ok (.int (-significand), rest)

/-- Passes over an exponent, after its letter. -/
def skipExponent (cs : List Char) : Except Fault (List Char) :=
  let cs :=
    match cs with
    | '+' :: rest | '-' :: rest => rest
    | _ => cs
  if (cs.takeWhile Decimal.isDigit).isEmpty then .error (faultAt .invalidNumber cs)
  else .ok (cs.dropWhile Decimal.isDigit)

/-- Passes over a fraction, after its point. -/
def skipFraction (cs : List Char) : Except Fault (List Char) :=
  let rest := cs.dropWhile Decimal.isDigit
  if (cs.takeWhile Decimal.isDigit).isEmpty then .error (faultAt .invalidNumber rest)
  else
    match rest with
    | 'e' :: more | 'E' :: more => skipExponent more
    | _ => .ok rest

/-- Passes over a number, after its sign. Its size does not matter. -/
def skipNumber (cs : List Char) : Except Fault (List Char) :=
  let ds := cs.takeWhile Decimal.isDigit
  let rest := cs.dropWhile Decimal.isDigit
  match ds with
  | [] => .error (faultAt .invalidNumber cs)
  | '0' :: d :: more => .error (faultAt .invalidNumber (d :: more ++ rest))
  | _ =>
    match rest with
    | '.' :: more => skipFraction more
    | 'e' :: more | 'E' :: more => skipExponent more
    | _ => .ok rest

/-! ## Skipping a value -/

/-- The kind of an open bracket. -/
inductive Bracket
  | list
  | object
deriving DecidableEq, Repr

/-- What the way over a value looks for next. -/
inductive Place
  /-- A value. -/
  | value
  /-- The first item or member after an opening bracket, or its end. -/
  | first
  /-- A comma or the closing bracket. -/
  | next
deriving DecidableEq, Repr

/-- Passes over a member's key and its colon. -/
def skipKey (cs : List Char) : Except Fault (List Char) :=
  match skipSpaces cs with
  | [] => .error ⟨.endInObject, 0⟩
  | c :: rest =>
    if c = '"' then do
      let rest ← skipQuoted rest
      match skipSpaces rest with
      | [] => .error ⟨.endInObject, 0⟩
      | d :: more => if d = ':' then .ok more else .error (faultAt .expectedColon (d :: more))
    else .error (faultAt .keyNotText (c :: rest))

/-- Passes over a value that is not a list or an object. -/
def skipScalar (cs : List Char) : Except Fault (List Char) :=
  match cs with
  | [] => .error ⟨.endInValue, 0⟩
  | 'n' :: rest => scanWord ['u', 'l', 'l'] rest
  | 't' :: rest => scanWord ['r', 'u', 'e'] rest
  | 'f' :: rest => scanWord ['a', 'l', 's', 'e'] rest
  | '-' :: rest => skipNumber rest
  | '"' :: rest => skipQuoted rest
  | c :: _ => if Decimal.isDigit c then skipNumber cs else .error (faultAt .expectedValue cs)

/-- Passes over what is left of a value, inside the given open brackets, the innermost first. Of two
steps in a row at least one reads a character, so twice the length of the text is enough `fuel`. -/
def skipFrom (fuel : Nat) (openBrackets : List Bracket) (place : Place) (cs : List Char) :
    Except Fault (List Char) :=
  match fuel with
  | 0 => .error ⟨.endInValue, 0⟩
  | fuel + 1 =>
    match openBrackets, place, skipSpaces cs with
    | [], .first, rest | [], .next, rest => .ok rest
    | bs, .value, '[' :: rest => skipFrom fuel (.list :: bs) .first rest
    | bs, .value, '\x7b' :: rest => skipFrom fuel (.object :: bs) .first rest
    | bs, .value, rest =>
      match skipScalar rest with
      | .error f => .error f
      | .ok rest => if bs.isEmpty then .ok rest else skipFrom fuel bs .next rest
    | .list :: _, .first, [] | .list :: _, .next, [] => .error ⟨.endInList, 0⟩
    | .object :: _, .first, [] | .object :: _, .next, [] => .error ⟨.endInObject, 0⟩
    | .list :: bs, .first, c :: rest =>
      if c = ']' then (if bs.isEmpty then .ok rest else skipFrom fuel bs .next rest)
      else skipFrom fuel (.list :: bs) .value (c :: rest)
    | .list :: bs, .next, c :: rest =>
      if c = ']' then (if bs.isEmpty then .ok rest else skipFrom fuel bs .next rest)
      else if c = ',' then skipFrom fuel (.list :: bs) .value rest
      else .error (faultAt .expectedCommaOrBracket (c :: rest))
    | .object :: bs, .first, c :: rest =>
      if c = '\x7d' then (if bs.isEmpty then .ok rest else skipFrom fuel bs .next rest)
      else
        match skipKey (c :: rest) with
        | .error f => .error f
        | .ok rest => skipFrom fuel (.object :: bs) .value rest
    | .object :: bs, .next, c :: rest =>
      if c = '\x7d' then (if bs.isEmpty then .ok rest else skipFrom fuel bs .next rest)
      else if c = ',' then
        match skipKey rest with
        | .error f => .error f
        | .ok rest => skipFrom fuel (.object :: bs) .value rest
      else .error (faultAt .expectedCommaOrBrace (c :: rest))

/-- Passes over a value. -/
def skipValue (cs : List Char) : Except Fault (List Char) :=
  skipFrom (2 * cs.length + 1) [] .value cs

end LayerGraph.Json
