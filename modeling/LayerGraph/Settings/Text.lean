import LayerGraph.Settings
import LayerGraph.Yaml.Node
import LayerGraph.Yaml.Style

/-!
# Settings as texts

A settings text is a mapping of sections, and a section is a mapping of members. What is left out
keeps its default and unknown names are ignored, but a known name may stand only once. A section may
be empty, and so may the list of prefixes; any other value has to have the form that is asked for.
-/

namespace LayerGraph

namespace Settings

/-! ## Reading -/

/-- How the members with a name change what has been read so far. -/
abbrev Members (σ : Type) := List (String × (Yaml.Document → Yaml.Node → σ → Option σ))

/-- Reads the members of a mapping one after another. `seen` holds the known names so far. -/
def readMembers {σ : Type} (d : Yaml.Document) (known : Members σ) (seen : List String)
    (state : σ) : List (Yaml.Node × Yaml.Node) → Option σ
  | [] => some state
  | (key, value) :: rest =>
    match d.follow key with
    | .scalar name _ _ =>
      match known.lookup name with
      | none => readMembers d known seen state rest
      | some read =>
        if name ∈ seen then none
        else
          (read d value state).bind fun state => readMembers d known (name :: seen) state rest
    | _ => none

/-- Reads a section: a mapping, or nothing. -/
def readSection {σ : Type} (known : Members σ) (start : σ) (d : Yaml.Document)
    (node : Yaml.Node) : Option σ :=
  match d.follow node with
  | .mapping members => readMembers d known [] start members
  | .scalar "" .plain _ => some start
  | _ => none

/-- Any scalar is a text. -/
def readText (d : Yaml.Document) (node : Yaml.Node) : Option String :=
  match d.follow node with
  | .scalar text _ _ => some text
  | _ => none

/-- A sequence of texts, or nothing. -/
def readTexts (d : Yaml.Document) (node : Yaml.Node) : Option (List String) :=
  match d.follow node with
  | .sequence items => items.mapM (readText d)
  | .scalar "" .plain _ => some []
  | _ => none

/-- A scalar is a number if it is plain, or literal and tagged as one. It has to be below a
limit. -/
def readNatural (limit : Nat) (d : Yaml.Document) (node : Yaml.Node) : Option Nat :=
  match d.follow node with
  | .scalar text .plain _ => Yaml.natural? limit text
  | .scalar text .literal (some "tag:yaml.org,2002:int") => Yaml.natural? limit text
  | _ => none

/-- The numbers of 32 bits and of 64 bits. -/
def readShort : Yaml.Document → Yaml.Node → Option Nat := readNatural UInt32.size

def readLong : Yaml.Document → Yaml.Node → Option Nat := readNatural UInt64.size

def recordMembers : Members RecordSettings :=
  [("data-dir", fun d v s => (readText d v).map fun x => { s with dataDirectory := x })]

def buildMembers : Members BuildSettings :=
  [("read-concurrency", fun d v s => (readLong d v).map fun x => { s with readConcurrency := x })]

def graphStoreMembers : Members GraphStoreSettings :=
  [("path", fun d v s => (readText d v).map fun x => { s with path := x }),
   ("timeout-ms", fun d v s => (readLong d v).map fun x => { s with timeoutMilliseconds := x }),
   ("max-concurrency", fun d v s => (readLong d v).map fun x => { s with maxConcurrency := x })]

def queryMembers : Members QuerySettings :=
  [("max-depth", fun d v s => (readShort d v).map fun x => { s with maxDepth := x }),
   ("max-hops", fun d v s => (readShort d v).map fun x => { s with maxHops := x }),
   ("max-paths", fun d v s => (readLong d v).map fun x => { s with maxPaths := x }),
   ("max-cycle-length", fun d v s => (readLong d v).map fun x => { s with maxCycleLength := x }),
   ("entry-point-prefixes",
     fun d v s => (readTexts d v).map fun x => { s with entryPointPrefixes := x })]

def sections : Members Settings :=
  [("records",
     fun d v s => (readSection recordMembers {} d v).map fun x => { s with records := x }),
   ("build", fun d v s => (readSection buildMembers {} d v).map fun x => { s with build := x }),
   ("graph-store",
     fun d v s => (readSection graphStoreMembers {} d v).map fun x => { s with graphStore := x }),
   ("query", fun d v s => (readSection queryMembers {} d v).map fun x => { s with query := x })]

/-- The settings of a text, if it is well formed and everything fits. They are not checked. -/
def ofText? (text : String) : Option Settings := do
  match ← Yaml.document? text with
  | none => return {}
  | some d => readSection sections {} d d.root

/-- The settings of a text, checked. -/
def ofText (text : String) : Except SettingsFault Settings :=
  match ofText? text with
  | none => .error .unreadable
  | some s =>
    match s.fault? with
    | some fault => .error fault
    | none => .ok s

/-! ## Writing -/

/-- The text of settings, section by section, with all members. Members are indented by two blanks,
and the further lines of their values by four. -/
def text (s : Settings) : String :=
  let scalar (key value : String) : String := s!"  {key}: {Yaml.scalarLine 4 value}"
  let number (key : String) (n : Nat) : String := s!"  {key}: {Decimal.natText n}\n"
  let items (key : String) (values : List String) : String :=
    if values.isEmpty then s!"  {key}: []\n"
    else s!"  {key}:\n" ++ String.join (values.map fun v => s!"  - {Yaml.scalarLine 4 v}")
  String.join
    ["records:\n",
     scalar "data-dir" s.records.dataDirectory,
     "build:\n",
     number "read-concurrency" s.build.readConcurrency,
     "graph-store:\n",
     scalar "path" s.graphStore.path,
     number "timeout-ms" s.graphStore.timeoutMilliseconds,
     number "max-concurrency" s.graphStore.maxConcurrency,
     "query:\n",
     number "max-depth" s.query.maxDepth,
     number "max-hops" s.query.maxHops,
     number "max-paths" s.query.maxPaths,
     number "max-cycle-length" s.query.maxCycleLength,
     items "entry-point-prefixes" s.query.entryPointPrefixes]

end Settings

end LayerGraph
