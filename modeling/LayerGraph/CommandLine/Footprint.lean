import LayerGraph.CommandLine

/-!
# What a command line touches

The places that a command line may read or change, so that a caller can fetch them beforehand. The
settings file comes first, since the other places follow from what it says.
-/

namespace LayerGraph.CommandLine

/-- The places of the settings files: the one of the working directory, and those that the given one
leads through. -/
def settingsFootprint (arguments : List String) : List Place :=
  match Request.ofArguments arguments with
  | .run i =>
    [Text.octets Settings.fileName] ::
      i.settingsPath.toList.flatMap fun path => Path.places (Text.octets path)
  | _ => []

/-- The project that a command works on. -/
def Command.project? : Command → Option String
  | .build project _ _ => some project
  | .describe project _ => some project
  | _ => none

/-- The paths that a command works on, with the given settings. The name of a graph store counts as
a path too, since the directory for it is created. -/
def Command.paths (settings : Settings) (c : Command) : List String :=
  let records := c.project?.toList.flatMap fun project =>
    [RecordFolder.fileName project, RecordFolder.temporaryName project].map
      (Path.join settings.records.dataDirectory)
  settings.records.dataDirectory :: records ++ [settings.graphStore.path]

/-- The places that a command line may read or change, given a disk with its settings file. The
command that writes default settings works with those. -/
def footprint (disk : Disk) (arguments : List String) : List Place :=
  match Request.ofArguments arguments with
  | .run i =>
    let settings :=
      if i.command = .setUp then {} else ((loadSettings disk i.settingsPath).toOption).getD {}
    let database := (Location.ofName settings.graphStore.path).toOption
    settingsFootprint arguments ++
      (i.command.paths settings).flatMap (fun path => Path.places (Text.octets path)) ++
      database.toList.flatMap (Location.places disk)
  | _ => []

end LayerGraph.CommandLine
