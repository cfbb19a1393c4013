import LayerGraph.Tables.Dependents
import LayerGraph.Tables.Paths

/-!
# Stored graphs

A stored graph holds the nodes and edges of graphs that were written to it, each row with the run
that wrote it last. Nodes are identified by their key and edges by source, target and kind; writing
a row that is there replaces it. The ends of an edge need not be nodes of it, since it may be asked
while a run is half done.

Rows are never edited in place by a reader, and only `prune` removes any: those that the given run
did not write. `tables` gives the columns that a database has for these rows.
-/

namespace LayerGraph

/-- A node and the run that wrote it last. -/
structure NodeRow where
  node : Node
  run : String
deriving DecidableEq, Repr

/-- An edge and the run that wrote it last. -/
structure EdgeRow where
  edge : Edge
  run : String
deriving DecidableEq, Repr

/-- The rows of a stored graph. -/
structure StoredGraph where
  nodes : List NodeRow := []
  edges : List EdgeRow := []
deriving DecidableEq, Repr, Inhabited

namespace StoredGraph

/-! ## Writing -/

/-- Writes a node, over the row with its key if there is one. -/
def putNode (m : StoredGraph) (n : Node) (run : String) : StoredGraph :=
  { m with nodes := Rows.put (·.node.key) m.nodes ⟨n, run⟩ }

/-- Writes an edge; one that is there only changes its run. -/
def putEdge (m : StoredGraph) (e : Edge) (run : String) : StoredGraph :=
  { m with edges := Rows.put EdgeRow.edge m.edges ⟨e, run⟩ }

/-- Removes the rows that another run wrote last. -/
def prune (m : StoredGraph) (run : String) : StoredGraph :=
  { nodes := m.nodes.filter (·.run = run), edges := m.edges.filter (·.run = run) }

/-- How many rows `prune` removes. -/
def pruneCount (m : StoredGraph) (run : String) : PruneCount :=
  { nodes := m.nodes.countP (·.run ≠ run), edges := m.edges.countP (·.run ≠ run) }

instance : RowStore StoredGraph := { putNode, putEdge, prune, pruneCount }

/-- What can be written to a stored graph. -/
inductive Write
  | node (n : Node) (run : String)
  | edge (e : Edge) (run : String)
  | prune (run : String)
deriving DecidableEq, Repr

/-- The stored graph after a write. -/
def after (m : StoredGraph) : Write → StoredGraph
  | .node n run => m.putNode n run
  | .edge e run => m.putEdge e run
  | .prune run => m.prune run

/-! ## Text order

A stored graph lists keys by their text. Keys with a blank name cannot be read back from their text
and are left out of every answer. -/

/-- Keys by their text. -/
def byText (ks : List NodeKey) : List NodeKey :=
  ks.mergeSort fun a b => Sorted.le a.text b.text

/-- Whether the key can be read back from its text. -/
def isReadable (k : NodeKey) : Bool :=
  !Text.isBlankText k.name

/-! ## Looking up -/

/-- The edges, without their runs. -/
def edgeList (m : StoredGraph) : List Edge := m.edges.map EdgeRow.edge

/-- The keys of the nodes. -/
def keys (m : StoredGraph) : List NodeKey := m.nodes.map (·.node.key)

def contains (m : StoredGraph) (k : NodeKey) : Bool :=
  m.nodes.any (·.node.key = k)

/-- The number of edges into `k`. -/
def incoming (m : StoredGraph) (k : NodeKey) : Nat :=
  m.edges.countP (·.edge.target = k)

/-- The number of edges out of `k`. -/
def outgoing (m : StoredGraph) (k : NodeKey) : Nat :=
  m.edges.countP (·.edge.source = k)

/-! ## Tables -/

/-- The rows as a database has them. -/
def tables (m : StoredGraph) : Tables where
  nodes := m.nodes.map fun r => r.node.columns r.run
  edges := m.edges.map fun r => r.edge.columns r.run

/-- What depends on `k` within a number of steps, with the least number of steps, by that number and
then by text. The direct dependents are always listed. -/
def dependentsWithin (m : StoredGraph) (k : NodeKey) (depth : Nat) : List (NodeKey × Nat) :=
  (m.tables.dependentsWithin k.text depth).filterMap fun (text, steps) =>
    (NodeKey.ofText? text).map fun key => (key, steps)

/-- The shortest paths between two nodes along edges in either direction, up to a number of hops, at
most `limit` of them. A path with a key that cannot be read back is left out after that. -/
def shortestPaths (m : StoredGraph) (source target : NodeKey) (hops limit : Nat) :
    List (List NodeKey) :=
  (m.tables.shortestPaths source.text target.text hops limit).filterMap fun path =>
    path.mapM NodeKey.ofText?

/-! ## Degrees, types and edges -/

/-- A node with the numbers of edges into and out of it. -/
structure DegreeCount where
  key : NodeKey
  incoming : Nat
  outgoing : Nat
deriving DecidableEq, Repr

/-- A threshold as a stored graph compares it, as a signed word of 64 bits. -/
def signedWord (n : Nat) : Int :=
  Int.bmod n UInt64.size

/-- The nodes with at least `least` edges, the busiest first, and by text where they are equal. -/
def degreeCounts (m : StoredGraph) (least : Nat) : List DegreeCount :=
  let counts := m.keys.map fun k => DegreeCount.mk k (m.incoming k) (m.outgoing k)
  let busy := counts.filter fun c => signedWord least ≤ ((c.incoming + c.outgoing : Nat) : Int)
  let sorted := busy.mergeSort fun a b =>
    let (x, y) := (a.incoming + a.outgoing, b.incoming + b.outgoing)
    y < x || (x = y && Sorted.le a.key.text b.key.text)
  sorted.filter fun c => isReadable c.key

/-- The nodes of the given types that no edge points at, type by type and then by text. -/
def withoutIncoming (m : StoredGraph) (types : List NodeType) : List NodeKey :=
  types.flatMap fun t =>
    (byText (m.keys.filter fun k => k.type = t && m.incoming k = 0)).filter isReadable

/-- The pairs of nodes of one type that an edge joins, each once, by the texts of source and
target. -/
def typedEdges (m : StoredGraph) (type : NodeType) : List (NodeKey × NodeKey) :=
  let inType (k : NodeKey) : Bool := k.type = type && m.contains k
  let sources := byText (Sorted.distinct (m.edgeList.map Edge.source))
  let pairs := (sources.filter inType).flatMap fun s =>
    let targets := (m.edgeList.filter fun e => e.source = s).map Edge.target
    ((byText (Sorted.distinct targets)).filter inType).map fun t => (s, t)
  pairs.filter fun (s, t) => isReadable s && isReadable t

end StoredGraph

end LayerGraph
