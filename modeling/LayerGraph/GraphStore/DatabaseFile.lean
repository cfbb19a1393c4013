import LayerGraph.GraphStore.Location

/-!
# The files of graph databases

The path of a database is resolved without the disk, so that two dots undo the name before them
whatever that names; but no name may be looked up in a file. A file that is empty becomes a database
when it is opened, and one that is absent is created first, if its directory is there. One octet
counts as nothing.

Beside the file lie others that are named for it. A change is written to the file under a journal,
from which it can be undone, or to a log, which has an index. They are removed when they have served
their purpose, and the disk shows them as they are left when the database is closed. What else lies
in their places gets in the way.
-/

namespace LayerGraph

/-! ## Places of files -/

namespace Location

/-- The most octets that the path of a database from the root may have. The paths of the files
beside it are longer. -/
def longestPath : Nat := 504

/-- The most octets that a path may have on the way. -/
def longestDetour : Nat := 511

/-- The length of the path from the root to a place. -/
def lengthFromRoot (disk : Disk) (p : Place) : Nat :=
  if p.head? = some [Name.slash] then (p.drop 1).foldr (·.length + 1 + ·) 0
  else
    p.foldr (fun name n => if name = Name.up then n else name.length + 1 + n) disk.depth

/-- Whether a path may lead through a place: unless it is too long, or something on the way is a
file or has too long a name. -/
def mayPass (disk : Disk) (p : Place) : Bool :=
  lengthFromRoot disk p ≤ longestDetour &&
    match disk.reach p with
    | .ok _ => true
    | .error fault => fault = .notFound

/-- The place of a path. The root is no place for a database. -/
def resolve (disk : Disk) (path : List UInt8) : Option Place := do
  let p ← (Path.names path).foldlM (fun p name =>
    let q := p.step name
    if mayPass disk q then some q else none) (Path.start path)
  if p ≠ Place.root && lengthFromRoot disk p ≤ longestPath then some p else none

end Location

/-! ## Files beside a database -/

namespace Disk

/-- Whether the name of a place is longer than names may be. -/
def isMisnamed (p : Place) : Bool :=
  longestName < (p.getLast?.getD []).length

/-- What lies beside a place under its name with an ending; an empty file counts as nothing. -/
def beside? (d : Disk) (p : Place) (ending : String) : Option Entry :=
  let isFilled : Entry → Bool
    | .file content => !content.isEmpty
    | _ => true
  if isMisnamed (p.beside ending) then none
  else (d.entryAt? (p.beside ending)).filter isFilled

/-- Whether there is a file at a place that holds nothing yet. -/
def hasBlank (d : Disk) (p : Place) : Bool :=
  match d.entryAt? p with
  | some (.file content) => content.size ≤ 1
  | _ => false

/-- The disk with an empty file at a place, unless something is there. -/
def leave (d : Disk) (p : Place) : Disk :=
  if (d.entryAt? p).isSome then d else d.set p (.file ByteArray.empty)

end Disk

/-- Whether a journal tells of a change: unless it begins with a zero. -/
def Entry.isHot : Entry → Bool
  | file content => content.data[0]? ≠ some 0
  | _ => true

/-- A database that is open. -/
structure OpenDatabase where
  place : Place
  graph : StoredGraph
  isLogged : Bool
  /-- Whether the file is read again each time; otherwise it is known what it holds. -/
  isReread : Bool
  /-- Whether all that the file holds has been written since it was opened. -/
  isNew : Bool := false
  /-- Why the database cannot be changed. -/
  writeFault? : Option OpenFault := none
deriving Repr, Inhabited

/-- Steps of opening a database. What a step changes on the disk stays when a later one fails. -/
abbrev Opening := ExceptT OpenFault (StateM Disk)

/-- Writes a file under a journal. -/
def Opening.write (p : Place) (e : Entry) : Opening Unit := do
  let disk ← get
  let journal := p.beside "-journal"
  if Disk.isMisnamed journal || disk.hasDirectory journal then throw .noSideFile
  set ((disk.erase journal).set p e)

namespace Location

/-! ## Opening -/

/-- Finds the file, or creates it. -/
def findFile (l : Location) : Opening Place := do
  let disk ← get
  match resolve disk l.path with
  | none => throw .noFile
  | some p =>
    if l.sample?.any fun path => (disk.findOctets path).toOption.isNone then throw .unworkable
    match disk.entryAt? p with
    | some .directory => throw (if l.mode = .readOnly then .unworkable else .noFile)
    | some _ => return p
    | none =>
      if l.mode = .create && disk.hasDirectory p.parent then
        set (disk.set p (.file ByteArray.empty))
        return p
      else throw .noFile

/-- Makes sure that nothing keeps this user away. -/
def passMark (l : Location) (p : Place) : Opening Unit := do
  if l.hasMark then
    if Disk.isMisnamed (p.beside ".lock") then throw .unworkable
    if ((← get).entryAt? (p.beside ".lock")).isSome then throw .taken

/-- Undoes a change that has not come to its end. A journal beside a blank file belongs to another
one; it is removed if the file can be guarded meanwhile. -/
def undo (l : Location) (p : Place) : Opening Unit := do
  let disk ← get
  let mayWrite := l.mode ≠ .readOnly
  let isGuarded := !l.isUnguarded && l.keeping ≠ .unguarded
  match disk.beside? p "-journal", disk.hasBlank p with
  | none, _ | some .directory, true => return
  | some .directory, false => throw .unworkable
  | some _, true => if mayWrite || !isGuarded then set (disk.erase (p.beside "-journal"))
  | some e, false =>
    if e.isHot then
      if mayWrite then set (disk.erase (p.beside "-journal")) else throw .readOnly

/-- Opens the log and its index, and says whether it can be written. A log that cannot be written is
left behind. -/
def openLog (l : Location) (p : Place) : Opening Bool := do
  let disk ← get
  let log := p.beside "-wal"
  let index := p.beside "-shm"
  let mayWrite := l.mode ≠ .readOnly
  if disk.hasDirectory log then throw .noSideFile
  if l.keeping = .exclusive && mayWrite then
    set (disk.erase log)
    return true
  match disk.entryAt? index with
  | some .directory =>
    set (disk.leave log)
    return false
  | found =>
    if l.keepsIndex then
      set (disk.leave log)
      if found.isSome then return false else throw .noSideFile
    else
      set (if mayWrite then (disk.erase log).erase index else (disk.leave log).leave index)
      return true

/-- Opens a log that is there already. Beside a blank file it is removed. -/
def findLog (l : Location) (p : Place) : Opening (Option Bool) := do
  let disk ← get
  match disk.beside? p "-wal", disk.hasBlank p with
  | none, _ => return none
  | some .directory, true => throw .unworkable
  | some _, true =>
    set (disk.erase (p.beside "-wal"))
    return none
  | some _, false => if l.hasLog then return some (← l.openLog p) else throw .noSideFile

/-- Opens a database without tables that has a log, and creates them. -/
def createTables (l : Location) (p : Place) (log? : Option Bool) : Opening OpenDatabase := do
  let isWritable ← log?.elim (l.openLog p) pure
  if l.isReadOnly || !isWritable then throw .readOnly
  modify (·.set p (.database {} true))
  return { place := p, graph := {}, isLogged := true, isReread := false, isNew := true }

/-- Makes a blank file a database. -/
def fill (l : Location) (p : Place) (log? : Option Bool) : Opening OpenDatabase := do
  if l.isReadOnly then throw .readOnly
  if l.hasLog then
    Opening.write p .bareDatabase
    l.createTables p log?
  else
    Opening.write p (.database {} false)
    return { place := p, graph := {}, isLogged := false, isReread := true, isNew := true }

/-- Opens a database that has a log. -/
def openLogged (l : Location) (p : Place) (graph : StoredGraph) (log? : Option Bool) :
    Opening OpenDatabase := do
  let isWritable ← log?.elim (l.openLog p) pure
  let writeFault? := if l.isReadOnly || !isWritable then some .readOnly else none
  return { place := p, graph, isLogged := true, isReread := false, writeFault? }

/-- Opens a database that has no log. It gets one if it can have one; a log that is there serves,
but the database does not keep it. -/
def openUnlogged (l : Location) (p : Place) (graph : StoredGraph) (log? : Option Bool) :
    Opening OpenDatabase := do
  if log?.isSome then return { ← l.openLogged p graph log? with isLogged := false }
  else if l.hasLog then
    if l.isReadOnly then throw .readOnly
    Opening.write p (.database graph true)
    l.openLogged p graph none
  else
    let hasNoJournal := (← get).hasDirectory (p.beside "-journal")
    let writeFault? : Option OpenFault :=
      if l.isReadOnly then some .readOnly else if hasNoJournal then some .noSideFile else none
    return { place := p, graph, isLogged := false, isReread := true, writeFault? }

/-- Opens the database of a file that nobody writes. -/
def openFixed (p : Place) : Option Entry → Opening OpenDatabase
  | some (.database graph isLogged) =>
    return { place := p, graph, isLogged, isReread := false, writeFault? := some .readOnly }
  | some .bareDatabase => throw .readOnly
  | _ => do if (← get).hasBlank p then throw .readOnly else throw .notDatabase

/-- Opens the database of a file. -/
def openFile (l : Location) : Opening OpenDatabase := do
  let p ← l.findFile
  if l.isFixed then openFixed p ((← get).entryAt? p)
  else
    l.passMark p
    if !l.hasMark then l.undo p
    let log? ← l.findLog p
    match (← get).entryAt? p with
    | some (.database graph true) =>
      if l.hasLog then l.openLogged p graph log? else throw .noSideFile
    | some (.database graph false) => l.openUnlogged p graph log?
    | some .bareDatabase => if l.hasLog then l.createTables p log? else throw .noSideFile
    | _ => if (← get).hasBlank p then l.fill p log? else throw .notDatabase

/-- The places that opening a database looks at. -/
def places (disk : Disk) (l : Location) : List Place :=
  let endings := ["", "-journal", "-wal", "-shm", ".lock"]
  (l.sample?.toList ++ [l.path]).flatMap Path.places ++
    (resolve disk l.path).toList.flatMap fun p => endings.map p.beside

end Location

end LayerGraph
