import LayerGraph.Record
import LayerGraph.Error

/-!
# Records in memory

A store that holds the records of its projects as they are, counts what is written to it, and can be
told to refuse writes.
-/

namespace LayerGraph

/-- Whether a record belongs to the entity of a kind and a trimmed name. -/
def EntityRecord.isOf (kind : EntityKind) (name : String) (r : EntityRecord) : Bool :=
  r.kind = kind && Text.trim r.name = name

/-- Writes an order and a layer onto all records of an entity; `none` when there are none. -/
def writeOrderOnto (records : List EntityRecord) (kind : EntityKind) (name : String) (order : Int)
    (layer : Option Layer) : Option (List EntityRecord) :=
  if records.any (EntityRecord.isOf kind name) then
    some (records.map fun r => if r.isOf kind name then r.withOrder order layer else r)
  else none

/-- A store in memory. -/
structure MemoryStore where
  /-- The records of each project. -/
  projects : List (String × List EntityRecord) := []
  /-- The entities that refuse to be written, by kind and trimmed name. -/
  failingWrites : List (EntityKind × String) := []
  writeCount : Nat := 0
  saveCount : Nat := 0
deriving DecidableEq, Repr, Inhabited

namespace MemoryStore

/-- The records of a project, in their order. -/
def records? (s : MemoryStore) (project : String) : Option (List EntityRecord) :=
  s.projects.lookup project

/-- The store with the given records for a project, in place of those it had. -/
def insertProject (s : MemoryStore) (project : String) (records : List EntityRecord) :
    MemoryStore :=
  if s.projects.any (·.1 = project) then
    { s with
      projects := s.projects.map fun (p, rs) => if p = project then (p, records) else (p, rs) }
  else { s with projects := s.projects ++ [(project, records)] }

/-- Makes the store refuse writes onto an entity. -/
def failWritesFor (s : MemoryStore) (kind : EntityKind) (name : String) : MemoryStore :=
  { s with failingWrites := (kind, name) :: s.failingWrites }

/-- The records of one kind. -/
def list (s : MemoryStore) (project : String) (kind : EntityKind) :
    Except Error (List EntityRecord) :=
  match s.records? project with
  | none => .error (.projectNotFound project)
  | some rs => .ok (rs.filter (·.kind = kind))

/-- Writes an order and a layer onto all records of an entity. -/
def writeOrder (s : MemoryStore) (project : String) (kind : EntityKind) (name : String)
    (order : Int) (layer : Option Layer) : Except Error MemoryStore :=
  if (kind, name) ∈ s.failingWrites then .error (.refused (.writeRejected kind name))
  else
    match s.records? project with
    | none => .error (.projectNotFound project)
    | some rs =>
      match writeOrderOnto rs kind name order layer with
      | none => .error (.refused (.noRecord kind name))
      | some rs => .ok { s.insertProject project rs with writeCount := s.writeCount + 1 }

/-- Saves the store; there is nothing to do but to count. -/
def save (s : MemoryStore) : MemoryStore :=
  { s with saveCount := s.saveCount + 1 }

end MemoryStore

end LayerGraph
