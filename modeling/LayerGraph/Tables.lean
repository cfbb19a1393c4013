import LayerGraph.Graph

/-!
# Tables

The rows of a stored graph as a database has them: texts, numbers and flags in columns. The row of a
node is found by the text of its key, and that of an edge by the texts of its ends and the name of
its kind. A table knows nothing more about its texts. Someone else may have written into it, so the
other columns of a row need not go with its key, and the key need not be that of any entity.

A row is written over the one that it is found by, or behind all rows. Each carries the run that
wrote it last, and only `prune` removes any: those that the given run did not write.
-/

namespace LayerGraph

/-- Writes a row over the one with its key, or behind all rows. -/
def Rows.put {ρ κ : Type} [DecidableEq κ] (key : ρ → κ) (rows : List ρ) (row : ρ) : List ρ :=
  if rows.any (key · = key row) then rows.map fun r => if key r = key row then row else r
  else rows ++ [row]

/-- How many rows were removed. -/
structure PruneCount where
  nodes : Nat := 0
  edges : Nat := 0
deriving DecidableEq, Repr

/-- What a graph can be copied into: nodes and edges are written with the run that writes them, and
what other runs wrote last is removed. -/
class RowStore (σ : Type) where
  putNode : σ → Node → String → σ
  putEdge : σ → Edge → String → σ
  prune : σ → String → σ
  pruneCount : σ → String → PruneCount

/-- The columns of a node. -/
structure NodeColumns where
  key : String
  type : String
  name : String
  layer : Option String
  order : Int
  external : Int
  run : String
deriving DecidableEq, Repr

/-- The columns of an edge. -/
structure EdgeColumns where
  source : String
  target : String
  kind : String
  run : String
deriving DecidableEq, Repr

/-- What the row of an edge is found by. -/
structure EdgeTexts where
  source : String
  target : String
  kind : String
deriving DecidableEq, Repr

def EdgeColumns.key (r : EdgeColumns) : EdgeTexts :=
  ⟨r.source, r.target, r.kind⟩

/-- The columns that a run writes for a node. -/
def Node.columns (n : Node) (run : String) : NodeColumns where
  key := n.key.text
  type := n.key.type.name
  name := n.key.name
  layer := n.layer.map Layer.name
  order := n.order
  external := if n.isExternal then 1 else 0
  run := run

/-- The columns that a run writes for an edge. -/
def Edge.columns (e : Edge) (run : String) : EdgeColumns where
  source := e.source.text
  target := e.target.text
  kind := e.kind.name
  run := run

/-- The tables of a stored graph. -/
structure Tables where
  nodes : List NodeColumns := []
  edges : List EdgeColumns := []
deriving DecidableEq, Repr, Inhabited

namespace Tables

/-- Writes a node, all columns of it. -/
def putNode (t : Tables) (n : Node) (run : String) : Tables :=
  { t with nodes := Rows.put NodeColumns.key t.nodes (n.columns run) }

/-- Writes an edge; one that is there only changes its run. -/
def putEdge (t : Tables) (e : Edge) (run : String) : Tables :=
  { t with edges := Rows.put EdgeColumns.key t.edges (e.columns run) }

/-- Removes the rows that another run wrote last. -/
def prune (t : Tables) (run : String) : Tables :=
  { nodes := t.nodes.filter (·.run = run), edges := t.edges.filter (·.run = run) }

/-- How many rows `prune` removes. -/
def pruneCount (t : Tables) (run : String) : PruneCount :=
  { nodes := t.nodes.countP (·.run ≠ run), edges := t.edges.countP (·.run ≠ run) }

instance : RowStore Tables := { putNode, putEdge, prune, pruneCount }

/-- Whether there is a node with this key. -/
def contains (t : Tables) (key : String) : Bool :=
  t.nodes.any (·.key = key)

end Tables

end LayerGraph
