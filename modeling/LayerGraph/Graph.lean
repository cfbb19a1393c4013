import LayerGraph.Key
import LayerGraph.Sorted

/-!
# The dependency graph

A directed multigraph of typed nodes. An edge runs from a dependent entity to what it depends on, so
the target is migrated first, and the edges into a node tell who depends on it.

The graph holds its nodes in the order in which they were added. It never holds an edge with an
absent end, an edge from a node to itself, or the same edge twice: `addEdge` refuses them.
-/

namespace LayerGraph

/-- The order of a node that has not been given one. -/
def unordered : Int := -1

/-- A node: an entity and its place in the migration order. -/
structure Node where
  key : NodeKey
  order : Int := unordered
deriving DecidableEq, Repr, Inhabited

namespace Node

/-- The layer follows from the type. -/
def layer (n : Node) : Option Layer := n.key.layer

def isExternal (n : Node) : Bool := n.key.isExternal

def isOrdered (n : Node) : Bool := n.order ≠ unordered

end Node

/-- An edge: the source depends on the target. -/
structure Edge where
  source : NodeKey
  target : NodeKey
  kind : EdgeKind
deriving DecidableEq, Repr, Inhabited

namespace Edge

/-- Edges order by source, then target, then kind. -/
instance : Ord Edge :=
  ⟨compareLex (compareOn source) (compareLex (compareOn target) (compareOn kind))⟩

instance : Std.TransOrd Edge :=
  inferInstanceAs (Std.TransCmp
    (compareLex (compareOn source) (compareLex (compareOn target) (compareOn kind))))

instance : Std.LawfulEqOrd Edge where
  eq_of_compare {a b} h := by
    have outer := compareLex_eq_eq.1 h
    have inner := compareLex_eq_eq.1 outer.2
    have source_eq : a.source = b.source := Std.LawfulEqOrd.eq_of_compare outer.1
    have target_eq : a.target = b.target := Std.LawfulEqOrd.eq_of_compare inner.1
    have kind_eq : a.kind = b.kind := Std.LawfulEqOrd.eq_of_compare inner.2
    cases a
    cases b
    simp_all

end Edge

/-- What came of adding an edge. -/
inductive EdgeInsert
  | added
  | duplicate
  | selfLoop
  | missingEndpoint
deriving DecidableEq, Repr

/-- A graph: its nodes and its edges, each in the order in which they were added. -/
structure Graph where
  nodes : List Node := []
  edges : List Edge := []
deriving DecidableEq, Repr, Inhabited

namespace Graph

/-- The graph without nodes. -/
def empty : Graph := {}

/-! ## Looking up -/

/-- The keys of the nodes, in the order in which they were added. -/
def keys (g : Graph) : List NodeKey :=
  g.nodes.map Node.key

def contains (g : Graph) (k : NodeKey) : Bool :=
  g.nodes.any (·.key = k)

def node? (g : Graph) (k : NodeKey) : Option Node :=
  g.nodes.find? (·.key = k)

def nodeCount (g : Graph) : Nat := g.nodes.length

/-- The number of edges; parallel edges of different kinds count separately. -/
def edgeCount (g : Graph) : Nat := g.edges.length

def sortedKeys (g : Graph) : List NodeKey :=
  Sorted.sort g.keys

/-- The nodes in key order. -/
def sortedNodes (g : Graph) : List Node :=
  g.nodes.mergeSort fun a b => Sorted.le a.key b.key

def sortedEdges (g : Graph) : List Edge :=
  Sorted.sort g.edges

/-- What `k` depends on, each key once, in key order. -/
def successors (g : Graph) (k : NodeKey) : List NodeKey :=
  Sorted.distinct ((g.edges.filter (·.source = k)).map Edge.target)

/-- What depends on `k`, each key once, in key order. -/
def predecessors (g : Graph) (k : NodeKey) : List NodeKey :=
  Sorted.distinct ((g.edges.filter (·.target = k)).map Edge.source)

/-- The number of edges into `k`, all kinds counted. -/
def inDegree (g : Graph) (k : NodeKey) : Nat :=
  g.edges.countP (·.target = k)

/-- The number of edges out of `k`, all kinds counted. -/
def outDegree (g : Graph) (k : NodeKey) : Nat :=
  g.edges.countP (·.source = k)

/-- The kinds of the edges that run from one key to another, in their order. -/
def kindsBetween (g : Graph) (source target : NodeKey) : List EdgeKind :=
  Sorted.sort ((g.edges.filter fun e => e.source = source ∧ e.target = target).map Edge.kind)

/-! ## Growing and ordering -/

/-- Adds a node for `k` unless there is one; the answer says whether it is new. -/
def addNode (g : Graph) (k : NodeKey) : Bool × Graph :=
  if g.contains k then (false, g)
  else (true, { g with nodes := g.nodes ++ [{ key := k }] })

/-- Adds an edge. An absent end is found before equal ends, and those before a repetition; in all
three cases the graph stays as it is. -/
def addEdge (g : Graph) (e : Edge) : EdgeInsert × Graph :=
  if !(g.contains e.source && g.contains e.target) then (.missingEndpoint, g)
  else if e.source = e.target then (.selfLoop, g)
  else if e ∈ g.edges then (.duplicate, g)
  else (.added, { g with edges := g.edges ++ [e] })

/-- The graph in which each node that has a new order carries it, and all else is as before. -/
def withOrders (g : Graph) (order? : NodeKey → Option Int) : Graph :=
  { g with nodes := g.nodes.map fun n => { n with order := (order? n.key).getD n.order } }

/-- The step that a graph can take: this is all that ever changes one. -/
inductive Step
  | addNode (k : NodeKey)
  | addEdge (e : Edge)
  | withOrders (order? : NodeKey → Option Int)

/-- The graph after a step. -/
def after (g : Graph) : Step → Graph
  | .addNode k => (g.addNode k).2
  | .addEdge e => (g.addEdge e).2
  | .withOrders order? => g.withOrders order?

/-! ## Fingerprint text -/

/-- The text that stands for a graph whatever the order in which it was built: a line per node in
key order, then a line per edge in edge order. -/
def fingerprintText (g : Graph) : String :=
  let nodeLine (n : Node) : String :=
    let layer := (n.layer.map Layer.name).getD "-"
    s!"N|{n.key.text}|{layer}|{n.order}\n"
  let edgeLine (e : Edge) : String :=
    s!"E|{e.source.text}|{e.target.text}|{e.kind.name}\n"
  String.join (g.sortedNodes.map nodeLine) ++ String.join (g.sortedEdges.map edgeLine)

end Graph

end LayerGraph
