import LayerGraph.RecordStore.Folder
import LayerGraph.RecordStore.Refusing
import LayerGraph.Build

/-!
# Record stores

Where the records of projects are: in memory, or in a folder of files. Both answer the same
questions; only a folder looks at the disk.
-/

namespace LayerGraph

/-- A record store. -/
inductive RecordStore
  | memory (s : RefusingStore)
  | folder (s : RecordFolder)
deriving Repr

namespace RecordStore

/-- Reads a project if the store reads on demand, with so many readers at once. -/
def load (disk : Disk) (readers : Nat) (project : String) : RecordStore → Except Error RecordStore
  | memory s => .ok (.memory s)
  | folder s => (s.load disk readers project).map .folder

/-- The records of one kind of a project that has been read. -/
def listLoaded (project : String) (kind : EntityKind) :
    RecordStore → Except Error (List EntityRecord)
  | memory s => s.list project kind
  | folder s => .ok ((s.records project).filter (·.kind = kind))

/-- The records of one kind, and the store that now keeps the project. -/
def list (disk : Disk) (project : String) (kind : EntityKind) (s : RecordStore) :
    Except Error (List EntityRecord × RecordStore) := do
  let s ← s.load disk 1 project
  return (← s.listLoaded project kind, s)

/-- Writes an order and a layer onto all records of an entity. A project that is read for it stays
read also when there is no such record. -/
def writeOrder (disk : Disk) (project : String) (kind : EntityKind) (name : String) (order : Int)
    (layer : Option Layer) (s : RecordStore) : Option Error × RecordStore :=
  match s.load disk 1 project with
  | .error e => (some e, s)
  | .ok (.memory m) =>
    match m.writeOrder project kind name order layer with
    | .error e => (some e, .memory m)
    | .ok m => (none, .memory m)
  | .ok (.folder f) =>
    match f.writeOrder project kind name order layer with
    | .error e => (some e, .folder f)
    | .ok f => (none, .folder f)

/-- Makes written orders durable. -/
def save (disk : Disk) : RecordStore → Option Error × RecordStore × Disk
  | memory s =>
    match s.save with
    | .error e => (some e, .memory s, disk)
    | .ok s => (none, .memory s, disk)
  | folder s =>
    let (e, s, disk) := s.save disk
    (e, .folder s, disk)

/-- The warnings of a project's file. -/
def loadWarnings (project : String) : RecordStore → List LoadWarning
  | memory _ => []
  | folder s => s.loadWarnings project

/-- The records of a project, kind by kind in the given order, after it was read with so many readers
at once. The store keeps a project that was read also when the records of a kind cannot be listed. -/
def readBy (disk : Disk) (readers : Nat) (kinds : List EntityKind) (project : String)
    (s : RecordStore) : Except Error (List EntityRecord) × RecordStore :=
  match s.load disk readers project with
  | .error e => (.error e, s)
  | .ok s => ((kinds.mapM (s.listLoaded project ·)).map List.flatten, s)

/-- How many of the four reads of a project can find it absent when at most `concurrency` run at
once. -/
def overlappingReads (concurrency : Nat) : Nat :=
  min (max concurrency 1) EntityKind.all.length

/-- The records of a project, when as many reads as can find it absent do, and end in the order of the
kinds. -/
def readProject (disk : Disk) (concurrency : Nat) (project : String) (s : RecordStore) :
    Except Error (List EntityRecord) × RecordStore :=
  s.readBy disk (overlappingReads concurrency) EntityKind.all project

/-- What a build makes of the records of a project. What was wrong with its file comes before all
other warnings. -/
def output (s : RecordStore) (project : String) (records : List EntityRecord) : BuildOutput :=
  let out := Build.ofRecords records
  { out with warnings := (s.loadWarnings project).map .malformedRecord ++ out.warnings }

/-- Reads a project and builds its graph. -/
def buildGraph (disk : Disk) (concurrency : Nat) (project : String) (s : RecordStore) :
    Except Error BuildOutput × RecordStore :=
  match s.readProject disk concurrency project with
  | (.error e, s) => (.error e, s)
  | (.ok records, s) => (.ok (s.output project records), s)

end RecordStore

end LayerGraph
