import LayerGraph.CommandLine.Arguments

/-!
# Commands

What a command line asks for: a command with its operands and options, and the options that every
command has. Those may stand before the name of the command and after it; what stands after it
counts.
-/

namespace LayerGraph.CommandLine

/-- The formats in which a graph is exported. -/
inductive ExportFormat
  | dot
  | json
deriving DecidableEq, Repr

/-- What can be done. -/
inductive Command
  /-- Write default settings and create the directory for records. -/
  | setUp
  /-- Build a project and write its order back. -/
  | build (project : String) (dryRun sync : Bool)
  /-- Show what depends on a node. -/
  | impact (key : String) (depth : Nat)
  /-- Show the shortest connections of two nodes. -/
  | connect (source target : String) (maxHops : Nat)
  /-- List the busiest nodes. -/
  | hubs (least : Nat)
  /-- List what nothing uses. -/
  | deadCode (prefixes : List String)
  /-- Find circles among the nodes of a type. -/
  | cycles (type : String) (maxLength : Nat)
  /-- Print the ordered graph of a project. -/
  | describe (project : String) (format : ExportFormat)
deriving DecidableEq, Repr

/-- The name of a command, its own options, how many operands it has, and what it stands for. -/
structure CommandForm where
  name : String
  operands : Nat := 0
  options : List OptionForm := []
  command : Reading → Command

/-- The options of every command. -/
def commonOptions : List OptionForm :=
  [{ name := "config", letter := some 'c', kind := .single (· ≠ "") },
   { name := "json", kind := .flag },
   { name := "verbose", letter := some 'v', kind := .counter },
   { name := "help", letter := some 'h', kind := .halt .help },
   { name := "version", letter := some 'V', kind := .halt .version }]

/-- Depths and hops are numbers of 32 bits, read as signed ones of 64 bits. -/
def shortNumber : NumberForm := { limit := UInt32.size, readsMinus := true }

/-- Counts and lengths are numbers of 64 bits. -/
def longNumber : NumberForm := { limit := UInt64.size, readsMinus := false }

/-- An option whose value is a number. -/
def numberOption (name : String) (letter : Option Char) (form : NumberForm) : OptionForm :=
  { name, letter, kind := .single fun value => (form.read? value).isSome }

/-- The number that an option gives. -/
def Reading.number (r : Reading) (name : String) (form : NumberForm) (ifAbsent : Nat) : Nat :=
  ((r.value? name).bind form.read?).getD ifAbsent

/-- The commands. -/
def commandForms : List CommandForm :=
  [{ name := "init", command := fun _ => .setUp },
   { name := "build"
     operands := 1
     options := [{ name := "dry-run", kind := .flag }, { name := "sync", kind := .flag }]
     command := fun r => .build (r.operand 0) (r.has "dry-run") (r.has "sync") },
   { name := "impact"
     operands := 1
     options := [numberOption "depth" (some 'd') shortNumber]
     command := fun r => .impact (r.operand 0) (r.number "depth" shortNumber 3) },
   { name := "path"
     operands := 2
     options := [numberOption "max-hops" none shortNumber]
     command := fun r =>
       .connect (r.operand 0) (r.operand 1) (r.number "max-hops" shortNumber 6) },
   { name := "hubs"
     options := [numberOption "min" (some 'm') longNumber]
     command := fun r => .hubs (r.number "min" longNumber 5) },
   { name := "dead-code"
     options := [{ name := "prefix", letter := some 'p', kind := .many }]
     command := fun r => .deadCode (r.values "prefix") },
   { name := "cycles"
     operands := 1
     options := [numberOption "max-length" none longNumber]
     command := fun r => .cycles (r.operand 0) (r.number "max-length" longNumber 5) },
   { name := "export"
     operands := 1
     options :=
       [{ name := "format", letter := some 'f', kind := .single (· ∈ ["dot", "json"]) }]
     command := fun r =>
       .describe (r.operand 0) (if r.value? "format" = some "json" then .json else .dot) }]

/-- A command and the options that every command has. -/
structure Invocation where
  settingsPath : Option String := none
  json : Bool := false
  command : Command
deriving Repr

/-- What a command line asks for. -/
inductive Request
  | run (invocation : Invocation)
  /-- The version of the program, or the same under the name of a command. -/
  | version (command : Option String)
  /-- How the program is used. -/
  | help
  /-- Nothing that the program knows. -/
  | unknown
deriving Repr

/-- What is asked for when reading stopped, within a command or before any. -/
def Request.ofHalt (command : Option String) : Halt → Request
  | .usage => .unknown
  | .version => .version command
  | .help => .help

/-- What the arguments of a command ask for, given what was read before its name. If the last of
that is wrong, a version or a help behind the name is shown nevertheless. -/
def CommandForm.request (f : CommandForm) (front : Except Halt Reading) (arguments : List String) :
    Request :=
  match readArguments (f.options ++ commonOptions) [] f.operands {} arguments with
  | .error reason => .ofHalt (some f.name) reason
  | .ok stop =>
    match stop.reading, front with
    | .ok r, .ok front =>
      if r.operands.length < f.operands then .unknown
      else
        .run
          { settingsPath := r.value? "config" <|> front.value? "config"
            json := r.has "json" || front.has "json"
            command := f.command r }
    | _, _ => .unknown

/-- What a command line asks for. -/
def Request.ofArguments (arguments : List String) : Request :=
  let names := "help" :: commandForms.map CommandForm.name
  match readArguments commonOptions names 0 {} arguments with
  | .error reason => .ofHalt none reason
  | .ok stop =>
    match stop.rest with
    | [] => .unknown
    | name :: rest =>
      match commandForms.find? (·.name = name) with
      | some f => f.request stop.reading rest
      | none => if rest = [] ∨ ∃ topic ∈ names, rest = [topic] then .help else .unknown

end LayerGraph.CommandLine
