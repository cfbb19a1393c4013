import LayerGraph.Json.Value
import LayerGraph.StoredGraph
import LayerGraph.GraphStore.Fault

/-!
# Copying a graph into the graph store

A run writes all nodes of a graph and then all edges, each write stamped with the run. Writes fail
one by one; a failure leaves its row as it was and is listed. Only a run without failures removes
what older runs left behind, so a half-written graph never takes away what was there.
-/

namespace LayerGraph

/-- How a graph is copied. -/
structure SyncLimits where
  maxConcurrency : Nat := 8
  timeout : Duration := .ofMilliseconds 5000
  pruneStale : Bool := true
deriving DecidableEq, Repr

/-- A node or an edge that could not be written, and why. -/
structure SyncFailure where
  item : String
  reason : String
deriving DecidableEq, Repr

instance : Ord SyncFailure :=
  ⟨compareLex (compareOn SyncFailure.item) (compareOn SyncFailure.reason)⟩

/-- What came of a run. -/
structure SyncReport where
  run : String
  /-- Set when the store did not answer; then nothing was written. -/
  unavailable : Option String := none
  nodesSynced : Nat := 0
  edgesSynced : Nat := 0
  failedNodes : List SyncFailure := []
  failedEdges : List SyncFailure := []
  pruned : PruneCount := {}
deriving DecidableEq, Repr

namespace SyncReport

/-- The store answered and every write landed. -/
def isComplete (r : SyncReport) : Bool :=
  r.unavailable.isNone && r.failedNodes.isEmpty && r.failedEdges.isEmpty

/-- The report as an object. -/
def toJson (r : SyncReport) : Json.Value :=
  let failure (f : SyncFailure) : Json.Value :=
    .obj [("item", .str f.item), ("reason", .str f.reason)]
  .obj <|
    [("run_id", .str r.run)] ++
    (r.unavailable.toList.map fun u => ("unavailable", .str u)) ++
    [("nodes_synced", .nat r.nodesSynced), ("edges_synced", .nat r.edgesSynced),
     ("failed_nodes", .arr (r.failedNodes.map failure)),
     ("failed_edges", .arr (r.failedEdges.map failure)),
     ("pruned_nodes", .nat r.pruned.nodes), ("pruned_edges", .nat r.pruned.edges)]

end SyncReport

namespace Sync

/-- What a failure calls an edge. -/
def edgeItem (e : Edge) : String :=
  s!"{e.source.text} -[{e.kind.name}]-> {e.target.text}"

/-- How each write of a run fares: the fault that it meets, if it meets one. -/
structure Faults where
  node? : Node → Option StoreFault := fun _ => none
  edge? : Edge → Option StoreFault := fun _ => none
  prune? : Option StoreFault := none

/-- Writes that are under way: what is stored, how many landed, and which failed. -/
structure Progress (σ : Type) where
  stored : σ
  landed : Nat := 0
  failed : List SyncFailure := []

variable {σ : Type}

/-- One write: it lands, or it leaves what is stored as it is and is noted. -/
def Progress.write (p : Progress σ) (item : String) (fault : Option StoreFault) (put : σ → σ) :
    Progress σ :=
  match fault with
  | none => { p with stored := put p.stored, landed := p.landed + 1 }
  | some f => { p with failed := p.failed ++ [⟨item, f.message⟩] }

variable [RowStore σ]

/-- Writes nodes in the given order. -/
def writeNodes (faults : Faults) (run : String) (nodes : List Node) (m : σ) : Progress σ :=
  nodes.foldl (fun p n =>
    p.write n.key.text (faults.node? n) (RowStore.putNode · n run)) { stored := m }

/-- Writes edges in the given order. -/
def writeEdges (faults : Faults) (run : String) (edges : List Edge) (m : σ) : Progress σ :=
  edges.foldl (fun p e =>
    p.write (edgeItem e) (faults.edge? e) (RowStore.putEdge · e run)) { stored := m }

/-- A run on a store that answers, with its writes in the given orders: nodes, then edges, then the
removal of what other runs wrote if nothing failed. Failures are listed by item. -/
def runIn (limits : SyncLimits) (faults : Faults) (run : String) (nodes : List Node)
    (edges : List Edge) (m : σ) : SyncReport × σ :=
  let n := writeNodes faults run nodes m
  let e := writeEdges faults run edges n.stored
  let report : SyncReport :=
    { run
      nodesSynced := n.landed
      edgesSynced := e.landed
      failedNodes := Sorted.sort n.failed
      failedEdges := Sorted.sort e.failed }
  if limits.pruneStale && report.isComplete && faults.prune?.isNone then
    ({ report with pruned := RowStore.pruneCount e.stored run }, RowStore.prune e.stored run)
  else (report, e.stored)

/-- A run that writes a graph in its own order. -/
def run (limits : SyncLimits) (faults : Faults) (run : String) (g : Graph) (m : σ) :
    SyncReport × σ :=
  runIn limits faults run g.nodes g.sortedEdges m

/-- The writes of a run in which every call succeeds. -/
def writes (run : String) (g : Graph) : List StoredGraph.Write :=
  g.nodes.map (.node · run) ++ g.sortedEdges.map (.edge · run) ++ [.prune run]

end Sync

end LayerGraph
