import LayerGraph.CommandLine.Command
import LayerGraph.CommandLine.Report
import LayerGraph.Graph.Export
import LayerGraph.Settings.File

/-!
# The command line

What the program prints and changes for the arguments it is given. Except for the one that creates
them, every command first reads the settings. A failure is reported with its causes, the outermost
first; a graph store that does not answer is no failure.
-/

namespace LayerGraph.CommandLine

/-- What a run leaves for its caller to see. -/
structure Output where
  /-- Zero when all went well, one after a failure, two for arguments that are not understood. -/
  code : Nat := 0
  stdout : String := ""
  stderr : String := ""
deriving DecidableEq, Repr

/-- What went wrong, and its causes, the outermost first. -/
abbrev Failure := List String

/-- An error and the cause that it wraps. -/
def failureOf : Error → Failure
  | .file fault => [(Error.file fault).message, fault.message]
  | .json message => [(Error.json message).message, message]
  | e => [e.message]

/-- What a command prints, or why it failed. -/
abbrev Outcome := Except Failure String

/-- A failure as it is reported. -/
def failureText (failure : Failure) : String :=
  match failure with
  | [] => ""
  | outermost :: causes =>
    ofLines (s!"error: {outermost}" :: causes.map fun cause => s!"  caused by: {cause}")

def Output.ofOutcome : Outcome → Output
  | .ok text => { stdout := text }
  | .error failure => { code := 1, stderr := failureText failure }

/-- How a value is printed: as JSON, or in words. -/
def printed (json : Bool) (value : Json.Value) (lines : List String) : String :=
  if json then value.pretty ++ "\n" else ofLines lines

/-- Reads the settings: from a given file, or from the file of the working directory if it is
there. -/
def loadSettings (disk : Disk) : Option String → Except Failure Settings
  | some path =>
    (Settings.load disk path).mapError fun e =>
      s!"failed to load config from {path}" :: failureOf e
  | none =>
    (Settings.loadOrDefault disk Settings.fileName).mapError fun e =>
      "failed to load stratum.yaml" :: failureOf e

/-- Writes default settings and creates the directory for records. -/
def setUp (disk : Disk) : Outcome × Disk :=
  match Settings.setUp disk "." with
  | (some e, disk) => (.error ("failed to initialize stratum" :: failureOf e), disk)
  | (none, disk) =>
    (.ok (ofLines ["Created ./stratum.yaml", "Put one <project>.jsonl per project in ./records"]),
     disk)

/-- What a command works on. -/
def workspace (settings : Settings) (disk : Disk) : Workspace :=
  { disk
    records := .folder { directory := settings.records.dataDirectory }
    graphStore := .ofName settings.graphStore.path }

/-- What is said of a project that could not be built. -/
def buildFailure (project : String) (e : Error) : Failure :=
  s!"failed to build project '{project}'" :: failureOf e

/-- Creates the directory of the graph store, unless that is the working directory. The disk is
given also when it cannot be created, since those above it may have been. -/
def createStoreDirectory (settings : Settings) (disk : Disk) : Option Failure × Disk :=
  let parent := Path.parent settings.graphStore.path
  let (fault?, disk) := disk.createDirectories parent
  (fault?.map fun fault =>
    [s!"failed to create graph store directory {parent}", fault.message], disk)

/-- Builds a project, and copies its graph into the graph store if that is asked for and it is no
dry run. -/
def build (settings : Settings) (disk : Disk) (run : String) (json : Bool) (project : String)
    (dryRun sync : Bool) : Outcome × Disk :=
  let copies := sync && !dryRun
  match if copies then createStoreDirectory settings disk else (none, disk) with
  | (some failure, disk) => (.error failure, disk)
  | (none, disk) =>
    let copy := if copies then some (settings.syncLimits, run) else none
    let (report, w) :=
      (workspace settings disk).build settings.build.readConcurrency project dryRun copy
    (match report with
      | .error e => .error (buildFailure project e)
      | .ok r => .ok (printed json r.toJson (buildLines r)),
     w.disk)

/-- Prints the ordered graph of a project. -/
def describe (settings : Settings) (disk : Disk) (project : String) (format : ExportFormat) :
    Outcome × Disk :=
  let (graph, w) :=
    (workspace settings disk).buildGraph settings.build.readConcurrency project
  (match graph, format with
    | .error e, _ => .error (buildFailure project e)
    | .ok ordered, .dot => .ok ordered.graph.toDot
    | .ok ordered, .json => .ok ordered.graph.toJsonText,
   w.disk)

/-- The key that an operand stands for. -/
def keyOf (text : String) : Except Failure NodeKey :=
  (NodeKey.ofText text).mapError fun fault => failureOf (.invalidKey text fault)

/-- The type that an operand stands for. -/
def typeOf (text : String) : Except Failure NodeType :=
  match NodeType.ofText? text with
  | some type => .ok type
  | none => .error (failureOf (.invalidKey text .unknownType))

/-- An outcome of a query as it is printed. -/
def answer {α : Type} (json : Bool) (toJson : α → Json.Value) (lines : α → List String)
    (ifNoPath : List String) : QueryOutcome α × GraphStore × Disk → Outcome × Disk
  | (outcome, _, disk) =>
    (.ok (printed json (outcome.toJson toJson) (outcomeLines lines ifNoPath outcome)), disk)

/-- Does what a command asks for, with the given settings. -/
def execute (settings : Settings) (disk : Disk) (run : String) (json : Bool) :
    Command → Outcome × Disk
  | .setUp => setUp disk
  | .build project dryRun sync => build settings disk run json project dryRun sync
  | .describe project format => describe settings disk project format
  | .impact text depth =>
    match keyOf text with
    | .error failure => (.error failure, disk)
    | .ok key => answer json Impact.toJson impactLines [] (store.impact disk limits key depth)
  | .connect sourceText targetText maxHops =>
    match keyOf sourceText, keyOf targetText with
    | .error failure, _ => (.error failure, disk)
    | _, .error failure => (.error failure, disk)
    | .ok source, .ok target =>
      answer json Connection.toJson connectionLines
        [s!"No path between {source.text} and {target.text} within {maxHops} hops."]
        (store.connection disk limits source target maxHops)
  | .hubs least =>
    answer json (fun hubs => .arr (hubs.map Hub.toJson)) (hubLines least) []
      (store.hubs disk limits least)
  | .deadCode prefixes =>
    answer json DeadCode.toJson deadCodeLines []
      (store.deadCode disk limits (if prefixes.isEmpty then none else some prefixes))
  | .cycles text maxLength =>
    match typeOf text with
    | .error failure => (.error failure, disk)
    | .ok type =>
      answer json (fun circles => .arr (circles.map keysJson)) circleLines []
        (store.cycles disk limits type maxLength)
where
  /-- The graph store that the settings name. -/
  store : GraphStore := .ofName settings.graphStore.path
  /-- The limits of queries. -/
  limits : QueryLimits := settings.queryLimits

/-- Runs an invocation. -/
def Invocation.run (i : Invocation) (disk : Disk) (run : String) : Outcome × Disk :=
  if i.command = .setUp then setUp disk
  else
    match loadSettings disk i.settingsPath with
    | .error failure => (.error failure, disk)
    | .ok settings => execute settings disk run i.json i.command

/-- The name and the version of the program, or of one of its commands. -/
def versionText (command : Option String) : String :=
  let name := "-".intercalate ("stratum" :: command.toList)
  s!"{name} 0.1.0\n"

/-- How the program is used. -/
def usageText : String :=
  let names := ", ".intercalate (commandForms.map CommandForm.name)
  ofLines ["Usage: stratum [OPTIONS] <COMMAND>", "", s!"Commands: {names}"]

/-- What the program prints and changes. `run` names what it copies into the graph store. -/
def run (disk : Disk) (run : String) (arguments : List String) : Output × Disk :=
  match Request.ofArguments arguments with
  | .run i =>
    let (outcome, disk) := i.run disk run
    (.ofOutcome outcome, disk)
  | .version command => ({ stdout := versionText command }, disk)
  | .help => ({ stdout := usageText }, disk)
  | .unknown => ({ code := 2, stderr := usageText }, disk)

end LayerGraph.CommandLine
