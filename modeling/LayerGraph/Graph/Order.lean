import LayerGraph.Graph.Cycle

/-!
# The migration order

Nodes without a layer come first, then the layers in their order of precedence. Inside a layer a
node comes after all that it depends on there, and of the nodes that are ready the one with the
smallest key comes first.

When every node that is left in a layer waits for another one, they hold a cycle. The order then
drops one dependency of the first cycle found, reports it and goes on, so there is always an order.
-/

namespace LayerGraph

/-- A dependency inside a layer that the order does not respect. -/
structure Dropped where
  layer : Option Layer
  source : NodeKey
  target : NodeKey
deriving DecidableEq, Repr

/-- The order of a graph's nodes: node `i` of the sequence has place `i`, and the places are kept by
key too. -/
structure MigrationOrder where
  sequence : List NodeKey := []
  places : Std.TreeMap NodeKey Nat := {}
  dropped : List Dropped := []

/-- An order of one layer under way. -/
structure Draft where
  /-- The nodes that have their place, in order. -/
  placed : List NodeKey := []
  /-- The others in key order, each with what it waits for. -/
  waiting : List (NodeKey × List NodeKey) := []
  /-- The dependencies given up so far, in order. -/
  dropped : List (NodeKey × NodeKey) := []
deriving DecidableEq, Repr

namespace Draft

/-- The start: each member of the layer waits for what it depends on inside the layer. -/
def start (g : Graph) (members : List NodeKey) : Draft :=
  { waiting := members.map fun k => (k, (g.successors k).filter (· ∈ members)) }

/-- The ready node with the smallest key. -/
def ready? (d : Draft) : Option NodeKey :=
  (d.waiting.find? (·.2.isEmpty)).map (·.1)

/-- What `k` still waits for. -/
def waitsFor (d : Draft) (k : NodeKey) : List NodeKey :=
  (d.waiting.lookup k).getD []

/-- Gives `k` the next place; nothing waits for it any more. -/
def place (d : Draft) (k : NodeKey) : Draft :=
  { d with
    placed := d.placed ++ [k]
    waiting := (d.waiting.filter (·.1 ≠ k)).map fun (n, deps) => (n, deps.filter (· ≠ k)) }

/-- The first cycle among the nodes that are left, along what they wait for. -/
def cycle? (g : Graph) (d : Draft) : Option Cycle :=
  let left := d.waiting.map (·.1)
  (findCycles d.waitsFor left left).head?.bind (Cycle.ofMembers? g)

/-- The dependency to give up when nothing is ready: that of the first cycle's suggested break on
the member after it. Were there no cycle, it would be the first one of the smallest key. -/
def dependencyToDrop? (g : Graph) (d : Draft) : Option (NodeKey × NodeKey) :=
  match d.cycle? g with
  | some c => (c.successorOf? c.suggestedBreak).map fun next => (c.suggestedBreak, next)
  | none =>
    match d.waiting with
    | (k, dep :: _) :: _ => some (k, dep)
    | _ => none

/-- Gives up one dependency. -/
def drop (d : Draft) (source target : NodeKey) : Draft :=
  { d with
    waiting := d.waiting.map fun (n, deps) =>
      (n, if n = source then deps.filter (· ≠ target) else deps)
    dropped := d.dropped ++ [(source, target)] }

/-- Lets everything that is left be ready. -/
def release (d : Draft) : Draft :=
  { d with waiting := d.waiting.map fun (n, _) => (n, []) }

/-- One step: place the smallest ready node, or give up a dependency. -/
def step (g : Graph) (d : Draft) : Draft :=
  match d.ready? with
  | some k => d.place k
  | none =>
    match d.dependencyToDrop? g with
    | some (source, target) => d.drop source target
    | none => d.release

/-- At most `n` steps. -/
def run (g : Graph) : Nat → Draft → Draft
  | 0, d => d
  | n + 1, d => if d.waiting.isEmpty then d else run g n (d.step g)

/-- A number of steps that is enough: each places a node or gives up a dependency. -/
def bound (d : Draft) : Nat :=
  d.waiting.foldr (fun (_, deps) n => deps.length + 1 + n) 0

/-- The order of one layer's members. -/
def ofMembers (g : Graph) (members : List NodeKey) : Draft :=
  let d := start g members
  run g d.bound d

end Draft

namespace MigrationOrder

/-- The layers in the order in which their nodes are placed. -/
def layers : List (Option Layer) := none :: Layer.all.map some

/-- Gives `k` the next place. -/
def place (o : MigrationOrder) (k : NodeKey) : MigrationOrder where
  sequence := o.sequence ++ [k]
  places := o.places.insert k o.sequence.length
  dropped := o.dropped

/-- Reports what was given up inside a layer. -/
def report (o : MigrationOrder) (layer : Option Layer) (ds : List (NodeKey × NodeKey)) :
    MigrationOrder :=
  { o with dropped := o.dropped ++ ds.map fun (source, target) => ⟨layer, source, target⟩ }

/-- Puts the order of one layer behind those before it. -/
def append (o : MigrationOrder) (layer : Option Layer) (d : Draft) : MigrationOrder :=
  d.placed.foldl place (o.report layer d.dropped)

/-- The order of all nodes of a graph. -/
def ofGraph (g : Graph) : MigrationOrder :=
  let keys := g.sortedKeys
  layers.foldl (fun o layer => o.append layer (Draft.ofMembers g (keys.filter (·.layer = layer)))) {}

/-- The place of a key in the order. -/
def position? (o : MigrationOrder) (k : NodeKey) : Option Nat :=
  o.places[k]?

/-- Whether the order leaves a dependency inside a layer unrespected. -/
def isApproximate (o : MigrationOrder) : Bool :=
  !o.dropped.isEmpty

/-- The graph whose nodes carry their places. -/
def apply (o : MigrationOrder) (g : Graph) : Graph :=
  g.withOrders fun k => (o.position? k).map Int.ofNat

end MigrationOrder

end LayerGraph
