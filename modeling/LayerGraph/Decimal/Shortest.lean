import LayerGraph.Decimal.Digits

/-!
# The shortest text of a double

A finite double stands for the reals that round to it: those between the middles to its two
neighbours, the middles included exactly when its significand is even. Its text has the fewest
digits of all decimals in that interval, and of those with that many digits it is the nearest.

The arithmetic is exact: a double is a natural number times a power of two, and the tests compare
natural numbers.
-/

namespace LayerGraph.Decimal

/-- A positive binary fraction, `significand * 2 ^ exponent`, with the interval of reals that round
to it, in quarters of the last binary place. -/
structure BinaryFraction where
  significand : Nat
  exponent : Int
  /-- How many quarters the interval reaches down. -/
  below : Nat
deriving Repr

/-- The binary fraction of the bits of a positive finite double. Below a power of two the
neighbours are twice as close as above it. -/
def BinaryFraction.ofBits (bits : UInt64) : BinaryFraction :=
  let fraction : Nat := bits.toNat % Nat.pow 2 52
  let exponent : Nat := bits.toNat / Nat.pow 2 52 % Nat.pow 2 11
  if exponent = 0 then ⟨fraction, -1074, 2⟩
  else
    ⟨Nat.pow 2 52 + fraction, (exponent : Int) - 1075,
      if fraction = 0 ∧ exponent > 1 then 1 else 2⟩

/-- A positive decimal, `digits * 10 ^ exponent`. -/
structure DecimalFraction where
  digits : Nat
  exponent : Int
deriving Repr

/-- The point nearest to `x` of the grid of multiples of `10 ^ k`, of those that round to `x`. -/
def BinaryFraction.onGrid? (x : BinaryFraction) (k : Int) : Option DecimalFraction :=
  let scale := Nat.pow 2 (x.exponent - 2).toNat * Nat.pow 10 (-k).toNat
  let unit := Nat.pow 2 (2 - x.exponent).toNat * Nat.pow 10 k.toNat
  let middle := 4 * x.significand * scale
  let low := (4 * x.significand - x.below) * scale
  let high := (4 * x.significand + 2) * scale
  let inside (d : Nat) : Bool :=
    if x.significand % 2 = 0 then low ≤ d * unit && d * unit ≤ high
    else low < d * unit && d * unit < high
  let down := middle / unit
  let up := down + 1
  match inside down, inside up with
  | false, false => none
  | true, false => some ⟨down, k⟩
  | false, true => some ⟨up, k⟩
  | true, true =>
    let toDown := middle - down * unit
    let toUp := up * unit - middle
    if toDown < toUp || (toDown = toUp && down % 2 = 0) then some ⟨down, k⟩ else some ⟨up, k⟩

/-- The decimal exponent of the leading digit. -/
def BinaryFraction.leadingExponent (x : BinaryFraction) : Int :=
  let scale := Nat.pow 2 (-x.exponent).toNat
  let whole := x.significand * Nat.pow 2 x.exponent.toNat / scale
  if whole ≠ 0 then Int.ofNat (digits whole).length - 1
  else
    let reachesOne (j : Nat) : Bool := x.significand * Nat.pow 10 j ≥ scale
    Int.negOfNat (((List.range 330).find? reachesOne).getD 330)

/-- The decimal with the fewest digits that rounds to `x`; seventeen are always enough. -/
def BinaryFraction.shortest (x : BinaryFraction) : DecimalFraction :=
  let lead := x.leadingExponent
  ((List.range 18).findSome? fun (n : Nat) => x.onGrid? (lead - n)).getD ⟨0, 0⟩

/-- The digits without trailing zeros, and the decimal exponent of the first of them. -/
def DecimalFraction.normal (d : DecimalFraction) : List Char × Int :=
  let ds := Decimal.digits d.digits
  ((ds.reverse.dropWhile (· = '0')).reverse, d.exponent + ds.length - 1)

/-- Where a format leaves positional notation: exponents from `least` up to and without `limit` are
written positionally, with at least one digit after the point. All others are written with an
exponent that has a sign. -/
structure FloatFormat where
  least : Int
  limit : Int

/-- The digits at a decimal exponent. -/
def FloatFormat.place (f : FloatFormat) (ds : List Char) (exponent : Int) : List Char :=
  if exponent < f.least || f.limit ≤ exponent then
    let mantissa := match ds with
      | d :: rest@(_ :: _) => d :: '.' :: rest
      | short => short
    mantissa ++ ['e', if exponent < 0 then '-' else '+'] ++ digits exponent.natAbs
  else if exponent < 0 then
    ['0', '.'] ++ List.replicate (-exponent - 1).toNat '0' ++ ds
  else
    let whole := exponent.toNat + 1
    let padded := ds ++ List.replicate (whole - ds.length) '0'
    let rest := padded.drop whole
    padded.take whole ++ '.' :: (if rest.isEmpty then ['0'] else rest)

/-- The text of a finite double. Zero keeps its sign. -/
def FloatFormat.text (f : FloatFormat) (x : Float) : String :=
  let bits := x.toBits
  let sign := if bits.toNat / Nat.pow 2 63 = 1 then ['-'] else []
  let magnitude := bits.toNat % Nat.pow 2 63
  if magnitude = 0 then String.ofList (sign ++ ['0', '.', '0'])
  else
    let (ds, exponent) := (BinaryFraction.ofBits magnitude.toUInt64).shortest.normal
    String.ofList (sign ++ f.place ds exponent)

end LayerGraph.Decimal
