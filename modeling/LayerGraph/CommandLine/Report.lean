import LayerGraph.Pipeline
import LayerGraph.Query

/-!
# Reports in words

What commands print when JSON is not asked for. Columns of numbers are flush right, lists of keys
are cut after twenty, and a circle is shown as a chain that ends where it begins.
-/

namespace LayerGraph.CommandLine

/-- Lines as a text; each ends with a line feed. -/
def ofLines (lines : List String) : String :=
  String.join (lines.map (· ++ "\n"))

/-- A text flush right in a column. -/
def flushRight (width : Nat) (s : String) : String :=
  String.ofList (List.replicate (width - s.length) ' ') ++ s

/-- A text flush left in a column. -/
def flushLeft (width : Nat) (s : String) : String :=
  s ++ String.ofList (List.replicate (width - s.length) ' ')

/-- How many keys a list shows. -/
def listedKeys : Nat := 20

/-- Keys one a line, cut after a number of them. -/
def keyLines (keys : List NodeKey) : List String :=
  if keys.isEmpty then ["    (none)"]
  else
    (keys.take listedKeys).map (fun k => s!"    • {k.text}") ++
      if listedKeys < keys.length then [s!"    • ... and {keys.length - listedKeys} more"] else []

/-- Keys as a chain. -/
def chain (keys : List NodeKey) : String :=
  " → ".intercalate (keys.map NodeKey.text)

/-- Keys as a chain that returns to its first key. -/
def closedChain (keys : List NodeKey) : String :=
  chain (keys ++ keys.take 1)

/-! ## Builds -/

def assignmentLine (a : Assignment) : String :=
  let layer := (a.layer.map Layer.name).getD "-"
  s!"  {flushRight 5 (Decimal.intText a.order)}  {flushLeft 8 layer}  {a.key.text}"

def cycleLines (c : Cycle) : List String :=
  [s!"    {closedChain c.members}", s!"      suggested break: {c.suggestedBreak.text}"]

def syncLines (r : SyncReport) : List String :=
  match r.unavailable with
  | some reason => [s!"warning: graph store not synced: {reason}"]
  | none =>
    [s!"Synced {r.nodesSynced} nodes and {r.edgesSynced} edges (run {r.run})."] ++
      ((r.failedNodes ++ r.failedEdges).map fun f => s!"  failed {f.item}: {f.reason}") ++
      if r.pruned.nodes + r.pruned.edges = 0 then []
      else [s!"Pruned {r.pruned.nodes} stale nodes and {r.pruned.edges} stale edges."]

/-- A build: the order, the cycles, the warnings, and what was written where. -/
def buildLines (r : BuildReport) : List String :=
  let g := r.ordered.graph
  let w := r.writeBack
  let verb := if w.dryRun then "Planned" else "Built"
  let cycles := r.ordered.cycles
  let warnings := r.ordered.warnings ++ w.skipped
  [s!"{verb} {r.project}: {g.nodeCount} nodes, {g.edgeCount} edges", ""] ++
    w.assignments.map assignmentLine ++
    (if cycles.isEmpty then []
      else "" :: s!"Found {cycles.length} circular dependencies:" :: cycles.flatMap cycleLines) ++
    (if warnings.isEmpty then [] else "" :: warnings.map fun x => s!"warning: {x.message}") ++
    ["",
     if w.dryRun then "Dry run: no records were written."
     else s!"Wrote order to {w.written} of {w.assignments.length} records."] ++
    (w.saveError.toList.map fun e => s!"error: failed to save records: {e}") ++
    r.sync.toList.flatMap syncLines ++
    [s!"Fingerprint: {g.fingerprint}"]

/-! ## Queries -/

/-- An impact: the dependents by their distance, and how many there are of each type. -/
def impactLines (r : Impact) : List String :=
  let level (depth : Nat) (keys : List NodeKey) : List String :=
    let label := if depth = 1 then "Direct dependents" else s!"Depth {depth}"
    s!"  {label} ({keys.length}):" :: keyLines keys
  let counts := ", ".intercalate (r.byType.map fun (t, keys) => s!"{keys.length} {t.name}")
  [s!"Impact analysis for {r.target.text} (depth {r.maxDepth}):", ""] ++
    if !r.known then ["  Node not found in the graph store."]
    else if r.total = 0 then ["  Nothing depends on this node."]
    else
      (r.byDepth.flatMap fun (d, keys) => level d keys) ++
        ["", s!"  {r.total} affected: {counts}"]

def connectionLines (r : Connection) : List String :=
  s!"Shortest connections from {r.source.text} to {r.target.text} ({r.hops} hops):" ::
    r.paths.map fun keys => s!"    {chain keys}"

/-- Hubs as a table, under the number of edges that was asked for. -/
def hubLines (least : Nat) (hubs : List Hub) : List String :=
  let row (total incoming outgoing key : String) : String :=
    s!"  {flushRight 5 total} {flushRight 5 incoming} {flushRight 5 outgoing}  {key}"
  let text := Decimal.natText
  if hubs.isEmpty then [s!"No nodes with {least} or more connections."]
  else
    [s!"Found {hubs.length} hubs with at least {least} connections:", "",
      row "TOTAL" "IN" "OUT" "NODE"] ++
    hubs.map fun h => row (text h.total) (text h.incoming) (text h.outgoing) h.key.text

def deadCodeLines (r : DeadCode) : List String :=
  let list (label : String) (keys : List NodeKey) : List String :=
    s!"  {label} ({keys.length}):" :: keyLines keys
  let excluded := ", ".intercalate r.excludedPrefixes
  [s!"Unreferenced code (excluding prefixes: {excluded}):", ""] ++
    list "Procedures" r.procedures ++ [""] ++ list "Classes" r.classes

/-- The circles that a query found, numbered from one. -/
def circleLines (circles : List (List NodeKey)) : List String :=
  if circles.isEmpty then ["No circular dependencies detected."]
  else
    [s!"Found {circles.length} circular dependencies:", ""] ++
      (circles.zipIdx 1).flatMap fun (keys, n) => [s!"  Cycle {n}:", s!"    {closedChain keys}"]

/-- The graph store did not answer. -/
def unavailableLines (reason : Unavailable) : List String :=
  [s!"unavailable: {reason.message}",
   "  Run \x60stratum build <project> --sync\x60 to populate the graph store."]

/-- An outcome in words. Only a connection can be absent. -/
def outcomeLines {α : Type} (answerLines : α → List String) (ifNoPath : List String) :
    QueryOutcome α → List String
  | .available answer => answerLines answer
  | .noPath => ifNoPath
  | .unavailable reason => unavailableLines reason

end LayerGraph.CommandLine
