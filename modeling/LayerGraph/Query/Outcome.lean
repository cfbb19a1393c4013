import LayerGraph.GraphStore.Fault
import LayerGraph.Json.Value

/-!
# Outcomes of queries

A query never fails. When the graph store does not answer, the outcome says so and why; a query for
a path may also find that there is none.
-/

namespace LayerGraph

/-- Why the graph store did not answer. -/
inductive Unavailable
  | unreachable (reason : String)
  | timeout (after : Duration)
deriving DecidableEq, Repr

/-- A call that timed out is told apart from all other faults. -/
def Unavailable.ofFault : StoreFault → Unavailable
  | .timeout after => .timeout after
  | fault => .unreachable fault.message

/-- The wording of why the store did not answer. -/
def Unavailable.message : Unavailable → String
  | unreachable reason => s!"graph store unreachable: {reason}"
  | timeout after => s!"graph store timed out after {after.text}"

/-- What came of a query. -/
inductive QueryOutcome (α : Type)
  | available (answer : α)
  | noPath
  | unavailable (reason : Unavailable)
deriving Repr

/-- The outcome as an object; an answer stands for itself. -/
def QueryOutcome.toJson {α : Type} (answerJson : α → Json.Value) : QueryOutcome α → Json.Value
  | available answer => answerJson answer
  | noPath => .obj [("no_path", .bool true)]
  | unavailable reason => .obj [("unavailable", .bool true), ("reason", .str reason.message)]

end LayerGraph
