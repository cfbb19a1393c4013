import LayerGraph.Graph.Fingerprint
import LayerGraph.GraphStore
import LayerGraph.WriteBack

/-!
# The pipeline

From records to an ordered graph and back: read a project, build its graph, find its cycles, order
it, write the orders back, and copy the graph into the graph store if that is asked for. Only
reading can fail as a whole; what goes wrong later is part of the report.
-/

namespace LayerGraph

/-- The graph of a project with its orders, and what was met on the way. -/
structure OrderedGraph where
  graph : Graph
  cycles : List Cycle
  warnings : List BuildWarning
deriving Repr

/-- What came of a build. -/
structure BuildReport where
  project : String
  ordered : OrderedGraph
  writeBack : WriteBackReport
  sync : Option SyncReport
deriving Repr

/-- Everything that a build reads and writes. -/
structure Workspace where
  disk : Disk := {}
  records : RecordStore
  graphStore : GraphStore

namespace OrderedGraph

/-- Orders a graph that was built; the warnings of the order come last. -/
def ofBuild (out : BuildOutput) : OrderedGraph :=
  let order := MigrationOrder.ofGraph out.graph
  { graph := order.apply out.graph
    cycles := out.graph.cycles
    warnings := out.warnings ++ order.dropped.map .residualCycle }

end OrderedGraph

namespace BuildReport

/-- The report as an object. -/
def toJson (r : BuildReport) : Json.Value :=
  let g := r.ordered.graph
  let cycle (c : Cycle) : Json.Value := .obj
    [("nodes", .texts (c.members.map NodeKey.text)),
     ("suggested_break", .str c.suggestedBreak.text)]
  .obj <|
    [("project", .str r.project), ("nodes", .nat g.nodeCount), ("edges", .nat g.edgeCount),
     ("has_cycles", .bool !r.ordered.cycles.isEmpty),
     ("cycles", .arr (r.ordered.cycles.map cycle)),
     ("warnings", .arr (r.ordered.warnings.map BuildWarning.toJson)),
     ("assignments", .arr (r.writeBack.assignments.map Assignment.toJson)),
     ("written", .nat r.writeBack.written),
     ("skipped", .arr (r.writeBack.skipped.map BuildWarning.toJson)),
     ("dry_run", .bool r.writeBack.dryRun), ("fingerprint", .str g.fingerprint)] ++
    (r.writeBack.saveError.toList.map fun e => ("save_error", .str e)) ++
    (r.sync.toList.map fun s => ("sync", s.toJson))

end BuildReport

namespace Workspace

/-- Reads a project and orders its graph, without writing anything. -/
def buildGraph (w : Workspace) (concurrency : Nat) (project : String) :
    Except Error OrderedGraph × Workspace :=
  let (result, records) := w.records.buildGraph w.disk concurrency project
  (result.map .ofBuild, { w with records })

/-- Writes the orders of a graph onto the records of a project. -/
def writeBack (w : Workspace) (project : String) (g : Graph) (dryRun : Bool) :
    WriteBackReport × Workspace :=
  let (report, records, disk) := WriteBack.run w.disk project g dryRun w.records
  (report, { w with records, disk })

/-- Copies a graph into the graph store. -/
def sync (w : Workspace) (limits : SyncLimits) (run : String) (g : Graph) :
    SyncReport × Workspace :=
  let (report, graphStore, disk) := w.graphStore.sync w.disk limits run g
  (report, { w with graphStore, disk })

/-- The end of a build: writes the orders of its graph back, and copies the graph into the graph store
if `copy` gives the limits and the name of the run for it. A dry run never does that. -/
def finish (w : Workspace) (project : String) (dryRun : Bool)
    (copy : Option (SyncLimits × String)) (ordered : OrderedGraph) : BuildReport × Workspace :=
  let (writeBack, w) := w.writeBack project ordered.graph dryRun
  match copy with
  | some (limits, run) =>
    if dryRun then ({ project, ordered, writeBack, sync := none }, w)
    else
      let (report, w) := w.sync limits run ordered.graph
      ({ project, ordered, writeBack, sync := some report }, w)
  | none => ({ project, ordered, writeBack, sync := none }, w)

/-- A whole build. -/
def build (w : Workspace) (concurrency : Nat) (project : String) (dryRun : Bool)
    (copy : Option (SyncLimits × String)) : Except Error BuildReport × Workspace :=
  match w.buildGraph concurrency project with
  | (.error e, w) => (.error e, w)
  | (.ok ordered, w) =>
    let (report, w) := w.finish project dryRun copy ordered
    (.ok report, w)

end Workspace

end LayerGraph
