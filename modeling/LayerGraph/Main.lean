import LayerGraph.CommandLine.Footprint
import LayerGraph.StoredGraph.File

/-!
# The program

What a command line may touch is fetched from the file system, the command line works on that, and
what it changed is written back.
-/

namespace LayerGraph.Program

/-- The path of a place as a text. Names that are no texts are not told apart. -/
def pathText (p : Place) : String :=
  Text.ofOctets p.path

/-- The entry of a file with the given bytes. -/
def entryOf (content : ByteArray) : Entry :=
  let text? := String.fromUTF8? content
  if text? = some StoredGraph.bareFileText then .bareDatabase
  else
    match text?.bind StoredGraph.ofFileText? with
    | some (g, isLogged) => .database g isLogged
    | none => .file content

/-- The bytes of a file; a directory has none. -/
def bytesOf : Entry → Option ByteArray
  | .directory => none
  | .file content => some content
  | .database g isLogged => some (g.fileText isLogged).toUTF8
  | .bareDatabase => some StoredGraph.bareFileText.toUTF8

/-- What is at a place. What cannot be read counts as absent. -/
def fetch (p : Place) : IO (Option Entry) := do
  try
    return some (entryOf (← IO.FS.readBinFile (pathText p)))
  catch
    | .inappropriateType _ 21 _ => return some .directory
    | _ => return none

/-- Adds what is at the given places to a disk. -/
def fetchAll (disk : Disk) (places : List Place) : IO Disk :=
  places.foldlM (fun disk p => do
    match ← fetch p with
    | some e => return disk.set p e
    | none => return disk) disk

/-- Writes a file under another name and moves it to its place. -/
def replaceFile (p : Place) (content : ByteArray) : IO Unit := do
  let text := pathText p
  IO.FS.writeBinFile (text ++ ".new") content
  IO.FS.rename (text ++ ".new") text

/-- Brings a place of the file system to what a disk has there. -/
def store (before after : Disk) (p : Place) : IO Unit := do
  match after.entryAt? p, (before.entryAt? p).bind bytesOf with
  | some .directory, _ => IO.FS.createDirAll (pathText p)
  | some e, old =>
    if (bytesOf e).map (·.data) ≠ old.map (·.data) then
      replaceFile p ((bytesOf e).getD ByteArray.empty)
  | none, some _ => IO.FS.removeFile (pathText p)
  | none, none => return

/-- A name for what a run copies into the graph store. -/
def runName : IO String := do
  let bytes ← IO.getRandomBytes 16
  return String.ofList (bytes.toList.flatMap fun b => Text.upperHex 2 b.toNat)

end LayerGraph.Program

open LayerGraph in
def main (arguments : List String) : IO UInt32 := do
  let depth := (← IO.currentDir).toString.utf8ByteSize
  let settings ← Program.fetchAll { depth } (CommandLine.settingsFootprint arguments)
  let places := CommandLine.footprint settings arguments
  let before ← Program.fetchAll settings places
  let (output, after) := CommandLine.run before (← Program.runName) arguments
  places.eraseDups.forM (Program.store before after)
  IO.print output.stdout
  IO.eprint output.stderr
  return output.code.toUInt32
