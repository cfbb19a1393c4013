import LayerGraph.Graph.Assignment
import LayerGraph.RecordStore

/-!
# Writing orders back

The assignments of an ordered graph are written onto the records one by one, and then the store is
saved. A write that fails is skipped with a warning and the others go on; a save that fails is
reported. A dry run computes the same assignments and touches nothing.
-/

namespace LayerGraph

/-- What came of writing orders back. -/
structure WriteBackReport where
  assignments : List Assignment := []
  written : Nat := 0
  skipped : List BuildWarning := []
  dryRun : Bool := false
  saveError : Option String := none
deriving Repr

namespace WriteBack

/-- Writes under way: the store, how many writes landed, and the warnings of those that did not. -/
structure Progress where
  store : RecordStore
  written : Nat := 0
  skipped : List BuildWarning := []

/-- Writes one assignment. -/
def Progress.write (disk : Disk) (project : String) (p : Progress) (a : Assignment) : Progress :=
  match EntityKind.ofNodeType? a.key.type with
  | none => p
  | some kind =>
    match p.store.writeOrder disk project kind a.key.name a.order a.layer with
    | (none, store) => { p with store, written := p.written + 1 }
    | (some e, store) =>
      { p with store, skipped := p.skipped ++ [.persistenceWriteFailure a.key e.message] }

/-- Writes the orders of a graph onto the records of a project, unless it is a dry run. -/
def run (disk : Disk) (project : String) (g : Graph) (dryRun : Bool) (store : RecordStore) :
    WriteBackReport × RecordStore × Disk :=
  let assignments := g.assignments
  if dryRun then ({ assignments, dryRun := true }, store, disk)
  else
    let p := assignments.foldl (Progress.write disk project) { store }
    let (failure, store, disk) := p.store.save disk
    ({ assignments, written := p.written, skipped := p.skipped
       saveError := failure.map Error.message }, store, disk)

end WriteBack

end LayerGraph
