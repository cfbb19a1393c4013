import LayerGraph.Graph

/-!
# Graphs by index

A graph as it lies in memory. Nodes are found by their place in the list of nodes, edges name their
ends by such places, and a map tells the place of each key. So a lookup by key goes through the map,
and what is listed of an edge goes back from places to keys.

The map, the nodes and the edges are kept apart: nothing in their types makes them agree. Each step
has to see to it.
-/

namespace LayerGraph

/-- An edge between the nodes at two places. -/
structure IndexedEdge where
  source : Nat
  target : Nat
  kind : EdgeKind
deriving DecidableEq, Repr

/-- The ways in which an edge can be followed. -/
inductive Direction
  | outgoing
  | incoming
deriving DecidableEq, Repr

/-- The end at which an edge is found. -/
def IndexedEdge.near (x : IndexedEdge) : Direction → Nat
  | .outgoing => x.source
  | .incoming => x.target

/-- The end to which an edge leads. -/
def IndexedEdge.far (x : IndexedEdge) : Direction → Nat
  | .outgoing => x.target
  | .incoming => x.source

/-- A graph in memory. -/
structure IndexedGraph where
  nodes : List Node := []
  edges : List IndexedEdge := []
  places : Std.TreeMap NodeKey Nat := {}

namespace IndexedGraph

/-- The key of the node at a place. -/
def keyAt (g : IndexedGraph) (place : Nat) : NodeKey :=
  g.nodes[place]!.key

/-- An edge with the keys of its ends. -/
def edgeAt (g : IndexedGraph) (x : IndexedEdge) : Edge :=
  ⟨g.keyAt x.source, g.keyAt x.target, x.kind⟩

/-! ## Growing and ordering -/

/-- The graph with one more node, behind all others. -/
def withNode (g : IndexedGraph) (k : NodeKey) : IndexedGraph where
  nodes := g.nodes ++ [{ key := k }]
  edges := g.edges
  places := g.places.insert k g.nodes.length

/-- The graph with one more edge. -/
def withEdge (g : IndexedGraph) (x : IndexedEdge) : IndexedGraph :=
  { g with edges := g.edges ++ [x] }

/-- Adds a node for `k` unless there is one; the answer says whether it is new. -/
def addNode (g : IndexedGraph) (k : NodeKey) : Bool × IndexedGraph :=
  if g.places.contains k then (false, g)
  else (true, g.withNode k)

/-- The edges that run from one place to another. -/
def connecting (g : IndexedGraph) (source target : Nat) : List IndexedEdge :=
  g.edges.filter fun x => x.source = source ∧ x.target = target

/-- Adds an edge. An absent end is found before equal ends, and those before a repetition. -/
def addEdge (g : IndexedGraph) (e : Edge) : EdgeInsert × IndexedGraph :=
  match g.places[e.source]?, g.places[e.target]? with
  | some source, some target =>
    if source = target then (.selfLoop, g)
    else if (g.connecting source target).any (·.kind = e.kind) then (.duplicate, g)
    else (.added, g.withEdge ⟨source, target, e.kind⟩)
  | _, _ => (.missingEndpoint, g)

/-- The graph in which each node that has a new order carries it. -/
def withOrders (g : IndexedGraph) (order? : NodeKey → Option Int) : IndexedGraph :=
  { g with nodes := g.nodes.map fun n => { n with order := (order? n.key).getD n.order } }

/-- The graph after a step. -/
def after (g : IndexedGraph) : Graph.Step → IndexedGraph
  | .addNode k => (g.addNode k).2
  | .addEdge e => (g.addEdge e).2
  | .withOrders order? => g.withOrders order?

/-- The graph that steps lead to from the empty one. -/
def ofSteps (steps : List Graph.Step) : IndexedGraph :=
  steps.foldl after {}

/-! ## Looking up -/

def contains (g : IndexedGraph) (k : NodeKey) : Bool :=
  g.places.contains k

def node? (g : IndexedGraph) (k : NodeKey) : Option Node :=
  g.places[k]?.map fun place => g.nodes[place]!

def sortedKeys (g : IndexedGraph) : List NodeKey :=
  Sorted.sort g.places.keys

def sortedEdges (g : IndexedGraph) : List Edge :=
  Sorted.sort (g.edges.map g.edgeAt)

/-- The edges at a place, as they are followed from there. -/
def edgesFrom (g : IndexedGraph) (place : Nat) (d : Direction) : List IndexedEdge :=
  g.edges.filter (·.near d = place)

/-- The neighbours of `k`, each key once, in key order. -/
def neighbours (g : IndexedGraph) (k : NodeKey) (d : Direction) : List NodeKey :=
  match g.places[k]? with
  | none => []
  | some place => Sorted.distinct ((g.edgesFrom place d).map fun x => g.keyAt (x.far d))

/-- The number of edges at `k`, all kinds counted. -/
def degree (g : IndexedGraph) (k : NodeKey) (d : Direction) : Nat :=
  match g.places[k]? with
  | none => 0
  | some place => (g.edgesFrom place d).length

/-- The kinds of the edges that run from one key to another, in their order. -/
def kindsBetween (g : IndexedGraph) (source target : NodeKey) : List EdgeKind :=
  match g.places[source]?, g.places[target]? with
  | some s, some t => Sorted.sort ((g.connecting s t).map IndexedEdge.kind)
  | _, _ => []

end IndexedGraph

end LayerGraph
