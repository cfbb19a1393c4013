import LayerGraph.Settings.Text

/-!
# The settings file

Settings are read from a file and written to one. Unless a file is asked for, one that is not there
counts as one that says nothing. A directory is initialized by writing the default settings into it
and creating the directory for records.
-/

namespace LayerGraph

namespace Settings

/-- The name of the settings file of a directory. -/
def fileName : String := "stratum.yaml"

/-- Reads a settings file, which has to be there. -/
def load (disk : Disk) (path : String) : Except Error Settings := do
  let text ← (disk.readText path).mapError .file
  (ofText text).mapError .settings

/-- Reads a settings file, or takes the defaults where there is none. -/
def loadOrDefault (disk : Disk) (path : String) : Except Error Settings := do
  if ← (disk.contains path).mapError .file then load disk path else return {}

/-- Writes a settings file. -/
def save (s : Settings) (disk : Disk) (path : String) : Except FileFault Disk :=
  disk.write path s.text.toUTF8

/-- Initializes a directory. The disk is given also when a step fails, since the directory for
records may have been created. -/
def setUp (disk : Disk) (directory : String) : Option Error × Disk :=
  let path := Path.join directory fileName
  let settings : Settings := {}
  match disk.contains path with
  | .error fault => (some (.file fault), disk)
  | .ok true => (some (.settings .alreadyInitialized), disk)
  | .ok false =>
    match disk.createDirectories (Path.join directory settings.records.dataDirectory) with
    | (some fault, disk) => (some (.file fault), disk)
    | (none, disk) =>
      match settings.save disk path with
      | .error fault => (some (.file fault), disk)
      | .ok disk => (none, disk)

end Settings

end LayerGraph
