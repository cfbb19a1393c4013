import LayerGraph.GraphStore.DatabaseFile
import LayerGraph.GraphStore.Fault
import LayerGraph.GraphStore.Sync

/-!
# The graph store

A graph store keeps a stored graph: in memory, in a database file, or nowhere. It is the one part
that may not answer, so each call can meet a fault before it reaches the graph: the call never
returns and is given up after its time, it fails, or the store cannot be opened. A database is
opened on first use and stays open; if that fails, the next call tries again.
-/

namespace LayerGraph

/-- What a graph store can be asked. -/
inductive StoreCall
  | ping
  | upsertNode
  | upsertEdge
  | pruneExcept
  | containsNode
  | dependentsWithin
  | shortestPaths
  | degreeCounts
  | nodesWithoutIncoming
  | typedEdges
deriving DecidableEq, Repr

namespace StoreCall

def all : List StoreCall :=
  [.ping, .upsertNode, .upsertEdge, .pruneExcept, .containsNode, .dependentsWithin, .shortestPaths,
   .degreeCounts, .nodesWithoutIncoming, .typedEdges]

/-- The name of a call. -/
def name : StoreCall → String
  | ping => "ping"
  | upsertNode => "upsert_node"
  | upsertEdge => "upsert_edge"
  | pruneExcept => "prune_except"
  | containsNode => "contains_node"
  | dependentsWithin => "dependents_within"
  | shortestPaths => "shortest_paths"
  | degreeCounts => "degree_counts"
  | nodesWithoutIncoming => "nodes_without_incoming"
  | typedEdges => "typed_edges"

end StoreCall

/-- Where a graph store keeps its graph. A store that keeps nothing answers every call as an empty
one does. -/
inductive StorePlace
  | nowhere
  | memory (m : StoredGraph)
  | database (name : String) (location : Location)
  | opened (name : String) (database : OpenDatabase)
  /-- The name of the database is not one that can be opened. -/
  | refused (name : String) (fault : OpenFault)
deriving Repr, Inhabited

/-- The most octets that the name of a database may have that is kept in memory in place of a
file. -/
def longestMemoryName : Nat := 1016

/-- The place of a graph store by the name of its database. What is kept in memory has to be
writable, since it starts out empty. -/
def StorePlace.ofName (name : String) : StorePlace :=
  match Location.ofName name with
  | .error fault => .refused name fault
  | .ok l =>
    if l.hasFile then .database name l
    else if !l.isInMemory && longestMemoryName < l.path.length then .refused name .noFile
    else if l.isReadOnly then .refused name .readOnly
    else .memory {}

/-- A graph store, and the faults that calls to it meet. -/
structure GraphStore where
  place : StorePlace
  /-- The names of nodes that are refused, as a node and as an end of an edge. -/
  rejected : List String := []
  /-- The calls that fail. -/
  failing : List StoreCall := []
  /-- The calls that never return. -/
  stalled : List StoreCall := []
deriving Repr, Inhabited

namespace GraphStore

/-- The store of a name. -/
def ofName (name : String) : GraphStore :=
  { place := .ofName name }

/-- The fault that a call meets before the store is opened. -/
def callFault? (s : GraphStore) (timeout : Duration) (call : StoreCall) : Option StoreFault :=
  if call ∈ s.stalled then some (.timeout timeout)
  else if call ∈ s.failing then some (.internal s!"injected {call.name}")
  else none

/-- The fault of a write that names a refused node. -/
def rejection? (s : GraphStore) (names : List String) : Option StoreFault :=
  (names.find? (· ∈ s.rejected)).map fun name => .internal s!"rejected {name}"

/-- The fault of looking into an open database whose file someone has written over. Only one without
a log looks there again. -/
def lookFault? (s : GraphStore) (disk : Disk) : Option StoreFault :=
  match s.place with
  | .opened name o =>
    let isForeign := (disk.entryAt? o.place) matches some (.file _)
    if o.isReread && isForeign && !disk.hasBlank o.place then
      some (.database (OpenFault.notDatabase.message name))
    else none
  | _ => none

/-- The fault of a write to an open database: it cannot be looked into, or it cannot be changed. -/
def writeFault? (s : GraphStore) (disk : Disk) : Option StoreFault :=
  s.lookFault? disk <|>
    match s.place with
    | .opened name o => o.writeFault?.map fun fault => .database (fault.message name)
    | _ => none

/-- How long a database is waited for that others are kept away from. -/
def patience : Duration := .ofMilliseconds 5000

/-- The fault of a database that was not opened. A call is given up before the waiting ends. -/
def openingFault (timeout : Duration) (name : String) (fault : OpenFault) : StoreFault :=
  if fault = .taken ∧ timeout.nanoseconds ≤ patience.nanoseconds then .timeout timeout
  else .unreachable s!"{name}: {fault.message name}"

/-- Opens the store, unless it is open: its graph, and the disk on which an absent database has been
created. -/
def connect (s : GraphStore) (disk : Disk) (timeout : Duration) :
    Except StoreFault StoredGraph × GraphStore × Disk :=
  match s.place with
  | .nowhere => (.ok {}, s, disk)
  | .memory m => (.ok m, s, disk)
  | .refused name fault => (.error (openingFault timeout name fault), s, disk)
  | .opened _ o => (.ok o.graph, s, disk)
  | .database name l =>
    match l.openFile.run disk with
    | (.ok o, disk) => (.ok o.graph, { s with place := .opened name o }, disk)
    | (.error fault, disk) => (.error (openingFault timeout name fault), s, disk)

/-- The store with a graph in place of the one it keeps. What has been written over the file of a
database stays until the database is closed. -/
def keep (s : GraphStore) (disk : Disk) (m : StoredGraph) : GraphStore × Disk :=
  match s.place with
  | .memory _ => ({ s with place := .memory m }, disk)
  | .opened name o =>
    let isForeign := (disk.entryAt? o.place) matches some (.file _)
    ({ s with place := .opened name { o with graph := m } },
     if isForeign then disk else disk.set o.place (.database m o.isLogged))
  | _ => (s, disk)

/-- The disk after the store has been closed. The log of a new database holds all of it, so that its
file is what it was even if someone has written over it. -/
def close (s : GraphStore) (disk : Disk) : Disk :=
  match s.place with
  | .opened _ o =>
    if o.isNew && !o.isReread then disk.set o.place (.database o.graph o.isLogged) else disk
  | _ => disk

/-- Asks the store something about its graph. A ping does not look into it. -/
def ask {α : Type} (s : GraphStore) (disk : Disk) (timeout : Duration) (call : StoreCall)
    (answer : StoredGraph → α) : Except StoreFault α × GraphStore × Disk :=
  match s.callFault? timeout call with
  | some fault => (.error fault, s, disk)
  | none =>
    match s.connect disk timeout with
    | (.error fault, s, disk) => (.error fault, s, disk)
    | (.ok m, s, disk) =>
      match s.lookFault? disk, call with
      | none, _ | _, .ping => (.ok (answer m), s, disk)
      | some fault, _ => (.error fault, s, disk)

/-- Asks the store for a write: a fault, or what came of it and the store after it. -/
def change {α : Type} (s : GraphStore) (disk : Disk) (timeout : Duration) (call : StoreCall)
    (rejection : Option StoreFault) (write : StoredGraph → α × StoredGraph) :
    Except StoreFault α × GraphStore × Disk :=
  match s.callFault? timeout call <|> rejection with
  | some fault => (.error fault, s, disk)
  | none =>
    match s.connect disk timeout with
    | (.error fault, s, disk) => (.error fault, s, disk)
    | (.ok m, s, disk) =>
      match s.writeFault? disk with
      | some fault => (.error fault, s, disk)
      | none =>
        let (a, m) := write m
        (.ok a, s.keep disk m)

/-- The faults that the writes of a run meet. -/
def syncFaults (s : GraphStore) (disk : Disk) (timeout : Duration) : Sync.Faults :=
  { node? := fun n =>
      s.callFault? timeout .upsertNode <|> s.rejection? [n.key.name] <|>
        s.writeFault? disk
    edge? := fun e =>
      s.callFault? timeout .upsertEdge <|> s.rejection? [e.source.name, e.target.name] <|>
        s.writeFault? disk
    prune? := s.callFault? timeout .pruneExcept <|> s.writeFault? disk }

/-- Copies a graph into the store. A store that does not answer is left alone and reported. -/
def sync (s : GraphStore) (disk : Disk) (limits : SyncLimits) (run : String) (g : Graph) :
    SyncReport × GraphStore × Disk :=
  match s.ask disk limits.timeout .ping id with
  | (.error fault, s, disk) => ({ run, unavailable := some fault.message }, s, disk)
  | (.ok m, s, disk) =>
    let (report, m) := Sync.run limits (s.syncFaults disk limits.timeout) run g m
    (report, s.keep disk m)

end GraphStore

end LayerGraph
