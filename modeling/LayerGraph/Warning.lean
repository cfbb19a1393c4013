import LayerGraph.Error
import LayerGraph.Graph.Order

/-!
# Warnings

Problems that a build goes on from. They are collected in the order in which they arise and returned
with the result, so a caller can decide what to make of them.
-/

namespace LayerGraph

/-- A line of a record file that could not be read and was left out. -/
structure LoadWarning where
  project : String
  /-- The number of the line, from one. -/
  lineNumber : Nat
  fault : String
deriving DecidableEq, Repr

/-- The wording of a load warning. -/
def LoadWarning.message (w : LoadWarning) : String :=
  s!"{w.project}.jsonl:{w.lineNumber}: skipped malformed record: {w.fault}"

/-- A problem met while building, ordering or writing back. -/
inductive BuildWarning
  /-- An entry of the record store could not be read; relations to it are unresolved. -/
  | malformedRecord (warning : LoadWarning)
  /-- A record without a name was left out. -/
  | unnamedRecord (kind : EntityKind)
  /-- A relation names an entity that no record declares. -/
  | unresolvedReference (source : NodeKey) (target : String) (relation : EdgeKind)
  /-- Several records declare one entity; their relations were merged. -/
  | duplicateRecord (key : NodeKey)
  /-- A cycle inside a layer made the order drop a dependency. -/
  | residualCycle (dropped : Dropped)
  /-- An order could not be written onto its records. -/
  | persistenceWriteFailure (key : NodeKey) (reason : String)
deriving DecidableEq, Repr

namespace BuildWarning

/-- The wording of a warning. -/
def message : BuildWarning → String
  | malformedRecord w =>
    s!"skipped malformed record at {w.project}.jsonl:{w.lineNumber}: {w.fault}"
  | unnamedRecord kind => s!"ignored {kind.name} record with an empty name"
  | unresolvedReference source target relation =>
    s!"unresolved reference: {source.text} {relation.name} '{target}' (treated as external)"
  | duplicateRecord key => s!"duplicate record {key.text}: relations merged"
  | residualCycle d =>
    let layer := (d.layer.map Layer.name).getD "UNASSIGNED"
    s!"residual cycle in {layer}: ignored dependency {d.source.text} -> {d.target.text}; " ++
      "order within cycle is approximate"
  | persistenceWriteFailure key reason => s!"failed to persist order for {key.text}: {reason}"

/-- The warning as an object: its kind, and what it is about. -/
def toJson : BuildWarning → Json.Value
  | malformedRecord w => .obj
    [("kind", .str "malformed_record"), ("project", .str w.project),
     ("line_number", .nat w.lineNumber), ("error", .str w.fault)]
  | unnamedRecord kind => .obj
    [("kind", .str "unnamed_record"), ("record_kind", .str kind.word)]
  | unresolvedReference source target relation => .obj
    [("kind", .str "unresolved_reference"), ("from", .str source.text), ("target", .str target),
     ("relation", .str relation.name)]
  | duplicateRecord key => .obj [("kind", .str "duplicate_record"), ("key", .str key.text)]
  | residualCycle d => .obj
    [("kind", .str "residual_cycle"), ("layer", .orNull (d.layer.map fun l => .str l.name)),
     ("dropped_from", .str d.source.text), ("dropped_to", .str d.target.text)]
  | persistenceWriteFailure key reason => .obj
    [("kind", .str "persistence_write_failure"), ("key", .str key.text), ("reason", .str reason)]

end BuildWarning

end LayerGraph
