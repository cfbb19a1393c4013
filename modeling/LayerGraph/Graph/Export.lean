import LayerGraph.Graph
import LayerGraph.Json.Value

/-!
# Exporting a graph

Two formats: a drawing in the DOT language, and a description in JSON. Both list nodes in key order
and edges in edge order, so a graph has one text in each.
-/

namespace LayerGraph.Graph

/-! ## DOT -/

/-- A text with another one in the place of each `c`. -/
def replaceChar (c : Char) (other : String) (s : String) : String :=
  String.ofList (s.toList.flatMap fun x => if x = c then other.toList else [x])

/-- The text inside a quoted identifier. The backslashes come first, so that those in front of the
quotes stay as they are. -/
def dotEscape (s : String) : String :=
  replaceChar '"' "\\\"" (replaceChar '\\' "\\\\" s)

/-- The shape that a type is drawn in. -/
def dotShape : NodeType → String
  | .table => "cylinder"
  | .classDef => "box"
  | .procedure => "ellipse"
  | .page => "note"
  | .external => "plaintext"

/-- The line of a node: its key, and a label with the key, the layer and the order if it has one.
External nodes are dashed. -/
def dotNode (n : Node) : String :=
  let key := dotEscape n.key.text
  let layer := (n.layer.map Layer.name).getD "EXTERNAL"
  let order := if n.isOrdered then " #" ++ Decimal.intText n.order else ""
  let style := if n.isExternal then ", style=dashed" else ""
  "  \"" ++ key ++ "\" [label=\"" ++ key ++ "\\n" ++ layer ++ order ++ "\", shape=" ++
    dotShape n.key.type ++ style ++ "];\n"

/-- The line of an edge, labelled with its kind. -/
def dotEdge (e : Edge) : String :=
  "  \"" ++ dotEscape e.source.text ++ "\" -> \"" ++ dotEscape e.target.text ++ "\" [label=\"" ++
    e.kind.name ++ "\"];\n"

/-- What stands before the nodes: dependencies are drawn at the bottom. -/
def dotHeader : String :=
  "digraph stratum \x7b\n  rankdir=BT;\n  node [fontname=\"Helvetica\", fontsize=10];\n" ++
    "  edge [fontname=\"Helvetica\", fontsize=8];\n\n"

/-- The drawing of a graph. -/
def toDot (g : Graph) : String :=
  let edges := g.sortedEdges
  dotHeader ++ String.join (g.sortedNodes.map dotNode) ++ (if edges.isEmpty then "" else "\n") ++
    String.join (edges.map dotEdge) ++ "\x7d\n"

/-! ## JSON -/

/-- The description of a graph as an object. -/
def describe (g : Graph) : Json.Value :=
  let node (n : Node) : Json.Value := .obj
    [("key", .str n.key.text), ("layer", .orNull (n.layer.map fun l => .str l.name)),
     ("topological_order", .int n.order), ("is_external", .bool n.isExternal)]
  let edge (e : Edge) : Json.Value := .obj
    [("source", .str e.source.text), ("target", .str e.target.text), ("kind", .str e.kind.name)]
  .obj [("nodes", .arr (g.sortedNodes.map node)), ("edges", .arr (g.sortedEdges.map edge))]

/-- The description of a graph as a text. -/
def toJsonText (g : Graph) : String :=
  g.describe.pretty

end LayerGraph.Graph
