import LayerGraph.Warning

/-!
# Building a graph from records

Records are first brought together by key: blanks around a name do not matter, records without a
name are left out, and several records of one entity count as one that declares all their relations.
A parent is single, so of several the least text is kept.

Then each relation is resolved. Its target is the entity of that name and of the type that the
relation expects; if no record declares one, a node of type `external` stands for it, so that no
edge dangles. Relations of an entity to itself and to blank names count for nothing.

All this goes by key, so the order of the records does not matter.
-/

namespace LayerGraph

/-- What the records of one entity declare together. -/
structure Declaration where
  key : NodeKey
  parent : Option String := none
  tables : List String := []
  procedures : List String := []
  classes : List String := []
deriving DecidableEq, Repr

/-- A relation of an entity to a name, as a record declares it. -/
structure Link where
  source : NodeKey
  kind : EdgeKind
  target : String
deriving DecidableEq, Repr

/-- A graph and what was met while building it. -/
structure BuildOutput where
  graph : Graph := {}
  warnings : List BuildWarning := []
deriving Repr

namespace Declaration

/-- The least of the texts that are there. -/
def leastText (a b : Option String) : Option String :=
  match a, b with
  | some a, some b => some (if compare b a = .lt then b else a)
  | some a, none => some a
  | none, b => b

/-- Adds what one more record declares. -/
def merge (d : Declaration) (r : EntityRecord) : Declaration :=
  { d with
    parent := leastText d.parent r.parentClass
    tables := d.tables ++ r.usesTables
    procedures := d.procedures ++ r.callsProcedures
    classes := d.classes ++ r.usesClasses }

/-- The declared relations: the parent first, then tables, procedures and classes. -/
def links (d : Declaration) : List Link :=
  d.parent.toList.map (⟨d.key, .inherits, ·⟩) ++ d.tables.map (⟨d.key, .usesTable, ·⟩) ++
    d.procedures.map (⟨d.key, .callsProcedure, ·⟩) ++ d.classes.map (⟨d.key, .usesClass, ·⟩)

end Declaration

/-- The records that have been brought together so far. -/
structure Merged where
  declared : Std.TreeMap NodeKey Declaration := {}
  /-- How many records of a key came after its first one, if any did. -/
  repeated : Std.TreeMap NodeKey Nat := {}
  warnings : List BuildWarning := []

namespace Merged

/-- Brings in one more record. -/
def add (m : Merged) (r : EntityRecord) : Merged :=
  if r.isNamed then
    match m.declared[r.key]? with
    | none => { m with declared := m.declared.insert r.key (Declaration.merge { key := r.key } r) }
    | some d =>
      { m with
        declared := m.declared.insert r.key (d.merge r)
        repeated := m.repeated.insert r.key (m.repeated.getD r.key 0 + 1) }
  else { m with warnings := m.warnings ++ [.unnamedRecord r.kind] }

/-- All records of a list, brought together one after another. -/
def ofRecords (records : List EntityRecord) : Merged :=
  records.foldl add {}

/-- What the records declare, in key order. -/
def declarations (m : Merged) : List Declaration :=
  m.declared.toList.map (·.2)

/-- The warnings about records: those without a name as they came, then the keys that came more than
once. -/
def allWarnings (m : Merged) : List BuildWarning :=
  m.warnings ++ m.repeated.toList.map fun (k, _) => .duplicateRecord k

end Merged

namespace Build

/-- The entity that a link names, if it were declared. -/
def localKey (l : Link) : NodeKey := ⟨l.kind.targetType, Text.trim l.target⟩

/-- The node that stands for the link's target when it is not declared. -/
def externalKey (l : Link) : NodeKey := ⟨.external, Text.trim l.target⟩

/-- Resolves one link. -/
def addLink (out : BuildOutput) (l : Link) : BuildOutput :=
  if Text.isBlankText l.target || localKey l = l.source then out
  else if out.graph.contains (localKey l) then
    { out with graph := (out.graph.addEdge ⟨l.source, localKey l, l.kind⟩).2 }
  else
    let graph := (out.graph.addNode (externalKey l)).2
    match graph.addEdge ⟨l.source, externalKey l, l.kind⟩ with
    | (.added, graph) =>
      { graph
        warnings := out.warnings ++
          [.unresolvedReference l.source (Text.trim l.target) l.kind] }
    | (_, graph) => { out with graph }

/-- The graph of the declared entities, without edges. -/
def nodesOf (declared : List Declaration) : Graph :=
  declared.foldl (fun g d => (g.addNode d.key).2) {}

/-- The graph that a list of records describes. -/
def ofRecords (records : List EntityRecord) : BuildOutput :=
  let merged := Merged.ofRecords records
  let declared := merged.declarations
  let start : BuildOutput := { graph := nodesOf declared, warnings := merged.allWarnings }
  (declared.flatMap Declaration.links).foldl addLink start

end Build

end LayerGraph
