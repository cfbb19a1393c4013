import LayerGraph.RecordStore.Memory

/-!
# Stores that refuse

Memory can always be listed and saved. Other stores cannot, for reasons of their own; memory that
refuses to stands for them. Memory itself is the case that refuses nothing.
-/

namespace LayerGraph

/-- A store in memory, and what it refuses. -/
structure RefusingStore extends MemoryStore where
  /-- The kind whose records cannot be listed. -/
  refusedList : Option EntityKind := none
  /-- Why the store cannot be saved, if it cannot. -/
  refusedSave : Option String := none
deriving DecidableEq, Repr, Inhabited

/-- Memory refuses nothing. -/
instance : Coe MemoryStore RefusingStore where
  coe s := { toMemoryStore := s }

namespace RefusingStore

/-- The store with the given records for a project. -/
def insertProject (s : RefusingStore) (project : String) (records : List EntityRecord) :
    RefusingStore :=
  { s with toMemoryStore := s.toMemoryStore.insertProject project records }

/-- Makes the store refuse writes onto an entity. -/
def failWritesFor (s : RefusingStore) (kind : EntityKind) (name : String) : RefusingStore :=
  { s with toMemoryStore := s.toMemoryStore.failWritesFor kind name }

/-- The records of one kind. -/
def list (s : RefusingStore) (project : String) (kind : EntityKind) :
    Except Error (List EntityRecord) :=
  if s.refusedList = some kind then .error (.refused (.other s!"list rejected for {kind.name}"))
  else s.toMemoryStore.list project kind

/-- Writes an order and a layer onto all records of an entity. -/
def writeOrder (s : RefusingStore) (project : String) (kind : EntityKind) (name : String)
    (order : Int) (layer : Option Layer) : Except Error RefusingStore :=
  (s.toMemoryStore.writeOrder project kind name order layer).map fun m =>
    { s with toMemoryStore := m }

/-- Saves the store. -/
def save (s : RefusingStore) : Except Error RefusingStore :=
  match s.refusedSave with
  | some text => .error (.refused (.other text))
  | none => .ok { s with toMemoryStore := s.toMemoryStore.save }

end RefusingStore

end LayerGraph
