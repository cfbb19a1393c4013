import LayerGraph.GraphStore
import LayerGraph.Multimap
import LayerGraph.Query.Outcome

/-!
# Queries

What the graph store tells about a project: what a change would reach, how two entities are
connected, which entities are the busiest, which ones nothing uses, and which depend on each other
in a circle.

Every query first makes sure that the store answers, and every bound that a caller gives is brought
within the configured limits. Answers list keys in key order.
-/

namespace LayerGraph

/-- The limits that queries keep. -/
structure QueryLimits where
  timeout : Duration := .ofMilliseconds 5000
  maxDepth : Nat := 10
  maxHops : Nat := 10
  maxPaths : Nat := 10
  maxCycleLength : Nat := 10
  /-- Names that begin with one of these are entry points: nothing in the graph has to use them. -/
  entryPoints : List String := ["API", "Main", "On", "Handle", "Event", "Test"]
deriving DecidableEq, Repr

/-! ## Answers -/

/-- What depends on a node. -/
structure Impact where
  target : NodeKey
  /-- Whether the stored graph has the node. -/
  known : Bool
  /-- The depth that was applied. -/
  maxDepth : Nat
  /-- The dependents by their least distance. -/
  byDepth : List (Nat × List NodeKey)
  /-- The dependents by their type. -/
  byType : List (NodeType × List NodeKey)
  total : Nat
deriving DecidableEq, Repr

/-- How two nodes are connected. -/
structure Connection where
  source : NodeKey
  target : NodeKey
  hops : Nat
  paths : List (List NodeKey)
deriving DecidableEq, Repr

/-- A node with many edges. -/
structure Hub where
  key : NodeKey
  incoming : Nat
  outgoing : Nat
deriving DecidableEq, Repr

/-- The number of edges at a hub. -/
def Hub.total (h : Hub) : Nat := h.incoming + h.outgoing

/-- The procedures and classes that nothing uses. -/
structure DeadCode where
  procedures : List NodeKey
  classes : List NodeKey
  excludedPrefixes : List String
deriving DecidableEq, Repr

/-- The keys as a JSON array of their texts. -/
def keysJson (ks : List NodeKey) : Json.Value := .texts (ks.map NodeKey.text)

def Impact.toJson (r : Impact) : Json.Value := .obj
  [("target", .str r.target.text), ("known", .bool r.known), ("max_depth", .nat r.maxDepth),
   ("affected_by_depth", .obj (r.byDepth.map fun (d, ks) => (Decimal.natText d, keysJson ks))),
   ("affected_by_type", .obj (r.byType.map fun (t, ks) => (t.upperName, keysJson ks))),
   ("total_affected", .nat r.total)]

def Connection.toJson (r : Connection) : Json.Value := .obj
  [("source", .str r.source.text), ("target", .str r.target.text), ("hops", .nat r.hops),
   ("paths", .arr (r.paths.map keysJson))]

def Hub.toJson (h : Hub) : Json.Value := .obj
  [("key", .str h.key.text), ("incoming", .nat h.incoming), ("outgoing", .nat h.outgoing),
   ("total", .nat h.total)]

def DeadCode.toJson (r : DeadCode) : Json.Value := .obj
  [("procedures", keysJson r.procedures), ("classes", keysJson r.classes),
   ("excluded_prefixes", .texts r.excludedPrefixes)]

namespace Query

/-! ## Answers from what the stored graph lists -/

/-- A bound brought between one and a limit; a limit of zero counts as one. -/
def clamp (bound limit : Nat) : Nat :=
  max 1 (min bound (max 1 limit))

/-- Dependents that have been counted: the keys so far, by their distances and by their types. -/
structure Tally where
  distinct : List NodeKey := []
  byDepth : Multimap Nat NodeKey := {}
  byType : Multimap NodeType NodeKey := {}

/-- Counts a dependent, unless its key has been counted. -/
def Tally.add (t : Tally) (row : NodeKey × Nat) : Tally :=
  if t.distinct.contains row.1 then t
  else
    { distinct := t.distinct ++ [row.1]
      byDepth := t.byDepth.push row.2 row.1
      byType := t.byType.push row.1.type row.1 }

/-- The impact of a node, from its dependents with their distances. -/
def impactOf (target : NodeKey) (known : Bool) (depth : Nat) (rows : List (NodeKey × Nat)) :
    Impact :=
  let tally := rows.foldl Tally.add {}
  { target
    known
    maxDepth := depth
    byDepth := tally.byDepth.toList.map fun (d, ks) => (d, Sorted.sort ks)
    byType := tally.byType.toList.map fun (t, ks) => (t, Sorted.sort ks)
    total := tally.distinct.length }

/-- Lists of keys in their order, which compares them key by key. -/
def pathOrder (a b : List NodeKey) : Bool :=
  (compare a b).isLE

/-- The connection of two nodes, from the shortest paths between them, of which none may be
listed. -/
def connectionOf? (source target : NodeKey) (limit : Nat) (paths : List (List NodeKey)) :
    Option Connection :=
  match paths with
  | [] => none
  | first :: _ =>
    some
      { source, target, hops := first.length - 1
        paths := (paths.mergeSort pathOrder).take limit }

/-- The hubs with at least `least` edges, the busiest first and then by key. -/
def hubsOf (least : Nat) (counts : List StoredGraph.DegreeCount) : List Hub :=
  let hubs := counts.map fun c => Hub.mk c.key c.incoming c.outgoing
  (hubs.filter fun h => least ≤ h.total).mergeSort fun a b =>
    b.total < a.total || (a.total = b.total && Sorted.le a.key b.key)

/-- Whether a name begins with a text. -/
def beginsWith (name start : String) : Bool :=
  start.toList.isPrefixOf name.toList

/-- What nothing uses, from the nodes without incoming edges. Empty prefixes exclude nothing. -/
def deadCodeOf (prefixes : List String) (keys : List NodeKey) : DeadCode :=
  let prefixes := prefixes.filter (· ≠ "")
  let dead := keys.filter fun k => !prefixes.any (beginsWith k.name)
  { procedures := Sorted.sort (dead.filter (·.type = .procedure))
    classes := Sorted.sort (dead.filter (·.type = .classDef))
    excludedPrefixes := prefixes }

/-! ## Circles -/

/-- The most circles that one query lists. -/
def maxCycles : Nat := 1000

/-- Circles found so far, the last one in front, and how many more may be listed. -/
structure Harvest where
  found : List (List NodeKey) := []
  room : Nat := maxCycles

/-- Notes a circle. -/
def Harvest.add (h : Harvest) (cycle : List NodeKey) : Harvest :=
  { found := cycle :: h.found, room := h.room - 1 }

/-- Follows edges from the end of a path, which is written backwards, to keys beyond its start. An
edge back to the start closes a circle. `steps` is how many more keys the path may take. -/
def extendPath (next : NodeKey → List NodeKey) (start : NodeKey) :
    Nat → List NodeKey → Harvest → Harvest
  | steps, path, h =>
    (next (path.headD start)).foldl (fun h k =>
      if h.room = 0 then h
      else if k = start then h.add path.reverse
      else
        match steps with
        | 0 => h
        | steps + 1 =>
          if compare start k = .lt ∧ k ∉ path then extendPath next start steps (k :: path) h
          else h) h

/-- The circles of at most `bound` keys along the given pairs, each from its smallest key on, in
order; at most `maxCycles` of them. -/
def circles (pairs : List (NodeKey × NodeKey)) (bound : Nat) : List (List NodeKey) :=
  let pairs := pairs.filter fun (s, t) => s ≠ t
  let next (k : NodeKey) : List NodeKey :=
    Sorted.distinct ((pairs.filter (·.1 = k)).map (·.2))
  let starts := Sorted.distinct (pairs.map (·.1))
  if bound < 2 then []
  else
    (starts.foldl (fun h s => extendPath next s (bound - 1) [s] h) {}).found.reverse

/-! ## Answers of a stored graph -/

/-- What depends on a node within a depth. When nothing does, it matters whether the stored graph
has the node at all. -/
def impact (limits : QueryLimits) (m : StoredGraph) (k : NodeKey) (maxDepth : Nat) : Impact :=
  let depth := clamp maxDepth limits.maxDepth
  let rows := m.dependentsWithin k depth
  impactOf k (!rows.isEmpty || m.contains k) depth rows

/-- How two nodes are connected. -/
def connection? (limits : QueryLimits) (m : StoredGraph) (source target : NodeKey) (maxHops : Nat) :
    Option Connection :=
  let limit := max 1 limits.maxPaths
  connectionOf? source target limit
    (m.shortestPaths source target (clamp maxHops limits.maxHops) limit)

/-- The busiest nodes. -/
def hubs (m : StoredGraph) (least : Nat) : List Hub :=
  hubsOf least (m.degreeCounts least)

/-- The procedures and classes that nothing uses and that are no entry points. -/
def deadCode (limits : QueryLimits) (m : StoredGraph) (prefixes : Option (List String)) :
    DeadCode :=
  deadCodeOf (prefixes.getD limits.entryPoints) (m.withoutIncoming [.procedure, .classDef])

/-- The circles among the nodes of one type. -/
def cycles (limits : QueryLimits) (m : StoredGraph) (type : NodeType) (maxLength : Nat) :
    List (List NodeKey) :=
  circles (m.typedEdges type) (min maxLength limits.maxCycleLength)

end Query

namespace GraphStore

/-- Makes sure that the store answers and then asks it. -/
def query {α : Type} (s : GraphStore) (disk : Disk) (limits : QueryLimits) (call : StoreCall)
    (answer : StoredGraph → α) : Except Unavailable α × GraphStore × Disk :=
  match s.ask disk limits.timeout .ping fun _ => () with
  | (.error fault, after) => (.error (.ofFault fault), after)
  | (.ok (), s, disk) =>
    let (result, after) := s.ask disk limits.timeout call answer
    (result.mapError .ofFault, after)

/-- The outcome of a query that always has an answer. -/
def outcome {α : Type} : Except Unavailable α × GraphStore × Disk →
    QueryOutcome α × GraphStore × Disk
  | (.ok a, after) => (.available a, after)
  | (.error reason, after) => (.unavailable reason, after)

/-- What depends on a node. Whether the store has the node is asked only when nothing depends on
it. -/
def impact (s : GraphStore) (disk : Disk) (limits : QueryLimits) (k : NodeKey) (maxDepth : Nat) :
    QueryOutcome Impact × GraphStore × Disk :=
  let depth := Query.clamp maxDepth limits.maxDepth
  match s.query disk limits .dependentsWithin (·.dependentsWithin k depth) with
  | (.error reason, after) => (.unavailable reason, after)
  | (.ok [], s, disk) =>
    outcome <| s.query disk limits .containsNode fun m => Query.impactOf k (m.contains k) depth []
  | (.ok rows, after) => (.available (Query.impactOf k true depth rows), after)

/-- How two nodes are connected. -/
def connection (s : GraphStore) (disk : Disk) (limits : QueryLimits) (source target : NodeKey)
    (maxHops : Nat) : QueryOutcome Connection × GraphStore × Disk :=
  match s.query disk limits .shortestPaths fun m => Query.connection? limits m source target maxHops
  with
  | (.error reason, after) => (.unavailable reason, after)
  | (.ok none, after) => (.noPath, after)
  | (.ok (some c), after) => (.available c, after)

/-- The busiest nodes. -/
def hubs (s : GraphStore) (disk : Disk) (limits : QueryLimits) (least : Nat) :
    QueryOutcome (List Hub) × GraphStore × Disk :=
  outcome <| s.query disk limits .degreeCounts fun m => Query.hubs m least

/-- The procedures and classes that nothing uses. -/
def deadCode (s : GraphStore) (disk : Disk) (limits : QueryLimits)
    (prefixes : Option (List String)) : QueryOutcome DeadCode × GraphStore × Disk :=
  outcome <| s.query disk limits .nodesWithoutIncoming fun m => Query.deadCode limits m prefixes

/-- The circles among the nodes of one type. -/
def cycles (s : GraphStore) (disk : Disk) (limits : QueryLimits) (type : NodeType)
    (maxLength : Nat) : QueryOutcome (List (List NodeKey)) × GraphStore × Disk :=
  outcome <| s.query disk limits .typedEdges fun m => Query.cycles limits m type maxLength

end GraphStore

end LayerGraph
