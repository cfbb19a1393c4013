import LayerGraph.Json.Names
import LayerGraph.Text.Lines
import LayerGraph.Warning

/-!
# Record files

A record file holds one record a line. Lines of blanks count for nothing. A line that is not a
record is left out with a warning that gives its number; it does not affect the lines around it.
-/

namespace LayerGraph.RecordFile

/-- What a line holds: a record, or the message of what is wrong with it. -/
def readLine (line : List Char) : Except String EntityRecord :=
  (Json.readWhole EntityRecord.read line).mapError fun f => f.message line

/-- What the lines of a text hold that are not blank, with their numbers from `start` on. -/
def entries (start : Nat) (content : List Char) : List (Nat × Except String EntityRecord) :=
  ((Text.lines content).zipIdx start).filterMap fun (line, n) =>
    if line.all Text.isBlank then none else some (n, readLine line)

/-- The records of a text, in the order of their lines. -/
def records (content : List Char) : List EntityRecord :=
  (entries 1 content).filterMap fun (_, entry) => entry.toOption

/-- One warning for each line that is neither blank nor a record, in the order of the lines. -/
def warnings (project : String) (content : List Char) : List LoadWarning :=
  (entries 1 content).filterMap fun (n, entry) =>
    match entry with
    | .ok _ => none
    | .error fault => some ⟨project, n, fault⟩

/-- The text of a list of records: a line each. -/
def render (records : List EntityRecord) : String :=
  String.join (records.map fun r => r.line ++ "\n")

end LayerGraph.RecordFile
