import LayerGraph.Graph
import LayerGraph.Json.Value

/-!
# Assignments

What is to be written back onto the records of an ordered graph: for each declared entity its place
and its layer, in the order of the places.
-/

namespace LayerGraph

/-- A place and a layer for the records of one entity. -/
structure Assignment where
  key : NodeKey
  order : Int
  layer : Option Layer
deriving DecidableEq, Repr

namespace Assignment

/-- Assignments go by place, and by key where places are equal. -/
instance : Ord Assignment :=
  ⟨compareLex (compareOn Assignment.order) (compareOn Assignment.key)⟩

def ofNode (n : Node) : Assignment := ⟨n.key, n.order, n.layer⟩

def toJson (a : Assignment) : Json.Value :=
  .obj [("key", .str a.key.text), ("topological_order", .int a.order),
    ("layer", .orNull (a.layer.map fun l => .str l.name))]

end Assignment

/-- What is to be written back: external nodes have no records, and unordered ones no place. -/
def Graph.assignments (g : Graph) : List Assignment :=
  Sorted.sort ((g.nodes.filter fun n => !n.isExternal && n.isOrdered).map Assignment.ofNode)

end LayerGraph
