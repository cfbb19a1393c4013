import LayerGraph.Duration

/-!
# Faults of the graph store

A call to the graph store fails because the store cannot be opened, because it did not answer in
time, or because of something inside it.
-/

namespace LayerGraph

/-- Why a call to the graph store failed. -/
inductive StoreFault
  | unreachable (reason : String)
  | timeout (after : Duration)
  | database (reason : String)
  | internal (reason : String)
deriving DecidableEq, Repr

namespace StoreFault

/-- The wording of a fault. -/
def message : StoreFault → String
  | unreachable reason => s!"graph store unreachable: {reason}"
  | timeout after => s!"graph store call timed out after {after.text}"
  | database reason => s!"graph store database error: {reason}"
  | internal reason => s!"graph store internal error: {reason}"

end StoreFault

end LayerGraph
