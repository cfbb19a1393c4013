import LayerGraph.Disk
import LayerGraph.GraphStore.Sync
import LayerGraph.Query

/-!
# Settings

Where records and the graph store are, and the limits that builds, writes and queries keep. Every
limit has to be positive, since with a limit of zero nothing would be done, and paths must not be
empty.
-/

namespace LayerGraph

/-- Where records are. -/
structure RecordSettings where
  dataDirectory : String := "records"
deriving DecidableEq, Repr

/-- How graphs are built. -/
structure BuildSettings where
  /-- How many kinds of records are read at once. -/
  readConcurrency : Nat := 4
deriving DecidableEq, Repr

/-- Where the graph store is, and the limits of calls to it. -/
structure GraphStoreSettings where
  path : String := ".stratum/graph.db"
  timeoutMilliseconds : Nat := 5000
  maxConcurrency : Nat := 8
deriving DecidableEq, Repr

/-- The limits of queries. -/
structure QuerySettings where
  maxDepth : Nat := 10
  maxHops : Nat := 10
  maxPaths : Nat := 10
  maxCycleLength : Nat := 10
  entryPointPrefixes : List String := ["API", "Main", "On", "Handle", "Event", "Test"]
deriving DecidableEq, Repr

/-- All settings. -/
structure Settings where
  records : RecordSettings := {}
  build : BuildSettings := {}
  graphStore : GraphStoreSettings := {}
  query : QuerySettings := {}
deriving DecidableEq, Repr

namespace Settings

/-- The limits by their names, in the order in which they are checked. -/
def limits (s : Settings) : List (String × Nat) :=
  [("build.read-concurrency", s.build.readConcurrency),
   ("graph-store.timeout-ms", s.graphStore.timeoutMilliseconds),
   ("graph-store.max-concurrency", s.graphStore.maxConcurrency),
   ("query.max-depth", s.query.maxDepth),
   ("query.max-hops", s.query.maxHops),
   ("query.max-paths", s.query.maxPaths),
   ("query.max-cycle-length", s.query.maxCycleLength)]

/-- The paths by their names, in the order in which they are checked. -/
def paths (s : Settings) : List (String × String) :=
  [("records.data-dir", s.records.dataDirectory), ("graph-store.path", s.graphStore.path)]

/-- The first fault of settings: a limit of zero, or else an empty path. -/
def fault? (s : Settings) : Option SettingsFault :=
  let zero := (s.limits.find? (·.2 = 0)).map fun (key, _) => .notPositive key
  zero <|> (s.paths.find? (·.2 = "")).map fun (key, _) => .emptyPath key

/-- How long a call to the graph store may take. -/
def timeout (s : Settings) : Duration :=
  .ofMilliseconds s.graphStore.timeoutMilliseconds

/-- The limits of queries. -/
def queryLimits (s : Settings) : QueryLimits :=
  { timeout := s.timeout
    maxDepth := s.query.maxDepth
    maxHops := s.query.maxHops
    maxPaths := s.query.maxPaths
    maxCycleLength := s.query.maxCycleLength
    entryPoints := s.query.entryPointPrefixes }

/-- How a graph is copied into the graph store. Rows of older runs are always removed. -/
def syncLimits (s : Settings) : SyncLimits :=
  { maxConcurrency := s.graphStore.maxConcurrency, timeout := s.timeout, pruneStale := true }

/-- The settings as an object. -/
def toJson (s : Settings) : Json.Value := .obj
  [("records", .obj [("data-dir", .str s.records.dataDirectory)]),
   ("build", .obj [("read-concurrency", .nat s.build.readConcurrency)]),
   ("graph-store", .obj
     [("path", .str s.graphStore.path), ("timeout-ms", .nat s.graphStore.timeoutMilliseconds),
      ("max-concurrency", .nat s.graphStore.maxConcurrency)]),
   ("query", .obj
     [("max-depth", .nat s.query.maxDepth), ("max-hops", .nat s.query.maxHops),
      ("max-paths", .nat s.query.maxPaths), ("max-cycle-length", .nat s.query.maxCycleLength),
      ("entry-point-prefixes", .texts s.query.entryPointPrefixes)])]

end Settings

end LayerGraph
