import LayerGraph.Disk
import LayerGraph.Record.File
import LayerGraph.RecordStore.Memory

/-!
# Records in a folder

A store over a folder with one record file a project. A project is read when it is first asked for
and kept; writes change what is kept, and saving writes the files of the changed projects, one after
another in the order of their names. A file is first written under another name and then moved, so
it is never seen half written.
-/

namespace LayerGraph

/-- A project that was read: its records, and whether they differ from its file. -/
structure ProjectFile where
  project : String
  records : List EntityRecord
  dirty : Bool := false
deriving DecidableEq, Repr

/-- A store over a folder. -/
structure RecordFolder where
  directory : String
  files : List ProjectFile := []
  warnings : List LoadWarning := []
deriving DecidableEq, Repr

/-- The names that are safe as file names: letters, digits, dashes, underscores and dots, and no dot
in front. -/
def isProjectName (project : String) : Bool :=
  match project.toList with
  | [] => false
  | c :: rest => c ≠ '.' && (c :: rest).all isNameChar
where
  /-- The characters of project names. -/
  isNameChar (c : Char) : Bool :=
    ('a' ≤ c && c ≤ 'z') || ('A' ≤ c && c ≤ 'Z') || Decimal.isDigit c ||
      c = '-' || c = '_' || c = '.'

namespace RecordFolder

/-- The name of a project's file. -/
def fileName (project : String) : String := project ++ ".jsonl"

/-- The name under which a project's file is written before it is moved. -/
def temporaryName (project : String) : String := project ++ ".jsonl.tmp"

/-- The path of a project's file. -/
def projectPath (s : RecordFolder) (project : String) : Except Error String :=
  if isProjectName project then .ok (Path.join s.directory (fileName project))
  else .error (.invalidProjectName project)

def file? (s : RecordFolder) (project : String) : Option ProjectFile :=
  s.files.find? (·.project = project)

/-- Reads a project unless it is kept already. `readers` is the number of readers that found it
absent at the same time: each of them reads the file and reports its warnings, and the records of
the first are kept. -/
def load (s : RecordFolder) (disk : Disk) (readers : Nat) (project : String) :
    Except Error RecordFolder :=
  if (s.file? project).isSome then .ok s
  else do
    let path ← s.projectPath project
    match disk.readText path with
    | .error .notFound => .error (.projectNotFound project)
    | .error fault => .error (.file fault)
    | .ok content =>
      let content := content.toList
      let block := RecordFile.warnings project content
      return { s with
        files := s.files ++ [{ project, records := RecordFile.records content }]
        warnings := s.warnings ++ (List.replicate readers block).flatten }

/-- The records of a project that is kept. -/
def records (s : RecordFolder) (project : String) : List EntityRecord :=
  ((s.file? project).map ProjectFile.records).getD []

/-- The warnings of a project's file. -/
def loadWarnings (s : RecordFolder) (project : String) : List LoadWarning :=
  s.warnings.filter (·.project = project)

/-- The store in which the kept file of a project is changed. -/
def updateFile (s : RecordFolder) (project : String) (f : ProjectFile → ProjectFile) :
    RecordFolder :=
  { s with files := s.files.map fun file => if file.project = project then f file else file }

/-- Writes an order and a layer onto all kept records of an entity of a project that is kept. -/
def writeOrder (s : RecordFolder) (project : String) (kind : EntityKind) (name : String)
    (order : Int) (layer : Option Layer) : Except Error RecordFolder :=
  match writeOrderOnto (s.records project) kind name order layer with
  | none => .error (.refused (.noRecord kind name))
  | some records => .ok (s.updateFile project fun f => { f with records, dirty := true })

/-- Writes a project's file: under its temporary name, and then moved. The disk is given also when a
step fails, since earlier ones may have left a directory or a temporary file. -/
def writeFile (s : RecordFolder) (disk : Disk) (f : ProjectFile) : Option FileFault × Disk :=
  let path := Path.join s.directory (fileName f.project)
  let temporary := Path.join s.directory (temporaryName f.project)
  match disk.createDirectories (Path.parent path) with
  | (some fault, disk) => (some fault, disk)
  | (none, disk) =>
    match disk.write temporary (RecordFile.render f.records).toUTF8 with
    | .error fault => (some fault, disk)
    | .ok disk =>
      match disk.rename temporary path with
      | .error fault => (some fault, disk)
      | .ok disk => (none, disk)

/-- Writes the files of the given projects until one cannot be written. -/
def saveProjects (s : RecordFolder) (disk : Disk) :
    List String → Option Error × RecordFolder × Disk
  | [] => (none, s, disk)
  | project :: rest =>
    match s.file? project with
    | none => s.saveProjects disk rest
    | some f =>
      match s.writeFile disk f with
      | (some fault, disk) => (some (.file fault), s, disk)
      | (none, disk) =>
        (s.updateFile project fun f => { f with dirty := false }).saveProjects disk rest

/-- The projects whose records differ from their files, in the order of their names. -/
def dirtyProjects (s : RecordFolder) : List String :=
  Sorted.sort ((s.files.filter ProjectFile.dirty).map ProjectFile.project)

/-- Writes the files of the changed projects. -/
def save (s : RecordFolder) (disk : Disk) : Option Error × RecordFolder × Disk :=
  s.saveProjects disk s.dirtyProjects

end RecordFolder

end LayerGraph
