import LayerGraph.Decimal.Digits

/-!
# Durations

A duration is written in the largest of seconds, milliseconds, microseconds and nanoseconds in which
it is at least one, with its exact fraction and no trailing zeros.
-/

namespace LayerGraph

/-- A span of time, in nanoseconds. -/
structure Duration where
  nanoseconds : Nat
deriving DecidableEq, Repr, Inhabited

namespace Duration

def ofMilliseconds (n : Nat) : Duration := ⟨n * 1000000⟩

/-- The units of durations: how many digits of nanoseconds one has, and its name. -/
def units : List (Nat × String) :=
  [(9, "s"), (6, "ms"), (3, "µs")]

/-- A duration in a unit of `10 ^ places` nanoseconds. -/
def textIn (d : Duration) (places : Nat) (unit : String) : String :=
  let whole := Decimal.natText (d.nanoseconds / Nat.pow 10 places)
  let ds := Decimal.digits (d.nanoseconds % Nat.pow 10 places)
  let padded := List.replicate (places - ds.length) '0' ++ ds
  let fraction := (padded.reverse.dropWhile (· = '0')).reverse
  whole ++ (if fraction.isEmpty then "" else String.ofList ('.' :: fraction)) ++ unit

/-- The text of a duration. -/
def text (d : Duration) : String :=
  match units.find? fun (places, _) => Nat.pow 10 places ≤ d.nanoseconds with
  | some (places, unit) => d.textIn places unit
  | none => Decimal.natText d.nanoseconds ++ "ns"

end Duration

end LayerGraph
