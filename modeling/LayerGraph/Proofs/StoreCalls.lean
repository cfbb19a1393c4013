import LayerGraph.RecordStore
import Mathlib

/-!
# Calls of a record store

What a record store is asked to do, one call after another, and what it answers. The lemmas say what
the two kinds of store answer: one over a folder looks at what it keeps of a project that it has
read, and memory at what it has.
-/

namespace LayerGraph

/-- Memory that refuses no write. -/
def MemoryStore.IsWilling (m : MemoryStore) : Prop := m.failingWrites = []

namespace RecordStore

/-- What a store is asked to do. -/
inductive Call
  | list (project : String) (kind : EntityKind)
  | writeOrder (project : String) (kind : EntityKind) (name : String) (order : Int)
      (layer : Option Layer)
  | save
  /-- Go on with a fresh store over the same folder. -/
  | reopen
deriving DecidableEq, Repr

/-- What a store says to a call. -/
inductive Answer
  | listed (rs : List EntityRecord)
  | done
  | failed (e : Error)
deriving DecidableEq, Repr

/-- Whether the file system is what made a call fail. -/
def Answer.isFault : Answer → Bool
  | failed (.file _) => true
  | _ => false

/-- A fresh store over the same folder. Memory has nothing that could be read anew. -/
def reopen : RecordStore → RecordStore
  | memory m => memory m
  | folder f => folder { directory := f.directory }

/-- The answer to a call, with the store and the disk after it. -/
def answer (d : Disk) (s : RecordStore) : Call → Answer × RecordStore × Disk
  | .list project kind =>
    match s.list d project kind with
    | .ok (rs, s) => (.listed rs, s, d)
    | .error e => (.failed e, s, d)
  | .writeOrder project kind name order layer =>
    match s.writeOrder d project kind name order layer with
    | (none, s) => (.done, s, d)
    | (some e, s) => (.failed e, s, d)
  | .save =>
    match s.save d with
    | (none, s, d) => (.done, s, d)
    | (some e, s, d) => (.failed e, s, d)
  | .reopen => (.done, s.reopen, d)

/-- What came of calls. -/
structure Run where
  answers : List Answer
  store : RecordStore
  disk : Disk

/-- No file was in the way of a call. -/
def Run.IsSmooth (r : Run) : Prop :=
  ∀ a ∈ r.answers, a.isFault = false

/-- Makes calls, one after another. -/
def run (d : Disk) (s : RecordStore) : List Call → Run
  | [] => ⟨[], s, d⟩
  | c :: calls =>
    let (a, s, d) := s.answer d c
    let rest := run d s calls
    { rest with answers := a :: rest.answers }

/-- A call that names one of these projects, if it names any, and an order of 64 bits. -/
def Call.IsWithin (projects : Set String) : Call → Prop
  | list project _ => project ∈ projects
  | writeOrder project _ _ order _ => project ∈ projects ∧ -2 ^ 63 ≤ order ∧ order < 2 ^ 63
  | save | reopen => True

/-- A store is opened anew only right after it has been saved. -/
def Call.Precedes (c next : Call) : Prop :=
  next = .reopen → c = .save

theorem answers_run_append (d : Disk) (s : RecordStore) (calls more : List Call) :
    (run d s calls).answers <+: (run d s (calls ++ more)).answers := by
  induction calls generalizing d s with
  | nil => exact List.nil_prefix
  | cons c calls ih => exact (List.prefix_cons_inj _).2 (ih _ _)

variable {d : Disk} {f : RecordFolder} {m : MemoryStore} {project name : String}
  {kind : EntityKind} {order : Int} {layer : Option Layer}

theorem answer_list_folder : (folder f).answer d (.list project kind) =
    match f.load d 1 project with
    | .error e => (.failed e, folder f, d)
    | .ok f => (.listed ((f.records project).filter (·.kind = kind)), folder f, d) := by
  dsimp only [answer, list, load]
  cases f.load d 1 project <;> rfl

theorem answer_writeOrder_folder : (folder f).answer d (.writeOrder project kind name order layer) =
    match f.load d 1 project with
    | .error e => (.failed e, folder f, d)
    | .ok f =>
      match writeOrderOnto (f.records project) kind name order layer with
      | none => (.failed (.refused (.noRecord kind name)), folder f, d)
      | some rs => (.done, folder (f.updateFile project fun file =>
          { file with records := rs, dirty := true }), d) := by
  dsimp only [answer, writeOrder, load]
  cases f.load d 1 project with
  | error e => rfl
  | ok f =>
    simp only [Except.map, RecordFolder.writeOrder]
    cases writeOrderOnto (f.records project) kind name order layer <;> rfl

theorem answer_list_memory : (memory m).answer d (.list project kind) =
    match m.records? project with
    | none => (.failed (.projectNotFound project), memory m, d)
    | some rs => (.listed (rs.filter (·.kind = kind)), memory m, d) := by
  have listed : RefusingStore.list m project kind = m.list project kind := if_neg nofun
  dsimp only [answer, list, load, listLoaded, bind, Except.bind]
  rw [listed, MemoryStore.list]
  cases m.records? project <;> rfl

theorem answer_writeOrder_memory (h : m.IsWilling) :
    (memory m).answer d (.writeOrder project kind name order layer) =
      match m.records? project with
      | none => (.failed (.projectNotFound project), memory m, d)
      | some rs =>
        match writeOrderOnto rs kind name order layer with
        | none => (.failed (.refused (.noRecord kind name)), memory m, d)
        | some rs =>
          (.done, memory { m.insertProject project rs with writeCount := m.writeCount + 1 },
            d) := by
  have willing : (kind, name) ∉ m.failingWrites := by
    rw [h]
    exact List.not_mem_nil
  dsimp only [answer, writeOrder, load, RefusingStore.writeOrder, MemoryStore.writeOrder]
  rw [if_neg willing]
  cases m.records? project with
  | none => rfl
  | some rs =>
    dsimp only
    cases writeOrderOnto rs kind name order layer <;> rfl

theorem answer_save_memory : (memory m).answer d .save =
    (.done, memory { m with saveCount := m.saveCount + 1 }, d) := rfl

end RecordStore

end LayerGraph
