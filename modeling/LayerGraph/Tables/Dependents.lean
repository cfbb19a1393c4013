import LayerGraph.Sorted
import LayerGraph.Tables

/-!
# Dependents in tables

What depends on a key is found row by row. A row is a key with a number of steps; the first rows are
the sources of the edges into the key, at one step. Rows wait in a queue until they are looked at.
Each one leads to the sources of the edges into its key, one step further away, unless it is at the
limit already. A row that has come up before does not come up again, but a key may, with another
number of steps.

In the end each key is given its least number of steps. The key that was asked for comes up when it
lies on a circle; it is left out.

Main statement: `Recursion.size_addRow_le`, which is why the queue becomes empty. Each row that comes
up is one of those that there can be, and it comes up once.
-/

namespace LayerGraph

namespace Tables

/-- The sources of the edges into a key, one for each edge. -/
def sourcesInto (t : Tables) (key : String) : List String :=
  (t.edges.filter (·.target = key)).map EdgeColumns.source

/-- The rows that a row leads to. -/
def furtherRows (t : Tables) (limit : Nat) (row : String × Nat) : List (String × Nat) :=
  if row.2 < limit then (t.sourcesInto row.1).map fun source => (source, row.2 + 1) else []

/-- All rows that there can be up to a limit. -/
def possibleRows (t : Tables) (limit : Nat) : List (String × Nat) :=
  t.edges.flatMap fun e => (List.range (limit + 1)).map fun steps => (e.source, steps)

theorem mem_possibleRows_of_mem_furtherRows {t : Tables} {limit : Nat} {row new : String × Nat}
    (h : new ∈ t.furtherRows limit row) : new ∈ t.possibleRows limit := by
  unfold furtherRows at h
  split at h
  · next within =>
    obtain ⟨source, hsource, rfl⟩ := List.mem_map.1 h
    obtain ⟨e, he, rfl⟩ := List.mem_map.1 hsource
    refine List.mem_flatMap.2 ⟨e, (List.mem_filter.1 he).1, List.mem_map.2 ⟨_, ?_, rfl⟩⟩
    exact List.mem_range.2 (Nat.succ_lt_succ within)
  · cases h

end Tables

/-- Rows that come up one after another: all that have come up so far, and those of them that wait to
be looked at. -/
structure Recursion where
  known : List (String × Nat) := []
  queue : List (String × Nat) := []

namespace Recursion

/-- A row comes up, unless it has before. -/
def addRow (r : Recursion) (row : String × Nat) : Recursion :=
  if r.known.contains row then r
  else { known := r.known ++ [row], queue := r.queue ++ [row] }

/-- The rows of a supply that have not come up. -/
def missing (r : Recursion) (supply : List (String × Nat)) : List (String × Nat) :=
  supply.filter fun row => !r.known.contains row

/-- How many rows there are yet to look at, if they come out of a supply. -/
def size (r : Recursion) (supply : List (String × Nat)) : Nat :=
  r.queue.length + (r.missing supply).length

variable {r : Recursion} {row : String × Nat} {rows supply : List (String × Nat)}

theorem size_addRow_le (h : row ∈ supply) : (r.addRow row).size supply ≤ r.size supply := by
  unfold addRow
  split
  · exact Nat.le_refl _
  · next new =>
    have fewer : missing { known := r.known ++ [row], queue := r.queue ++ [row] } supply =
        (r.missing supply).filter (· ≠ row) := by
      rw [missing, missing, List.filter_filter]
      refine List.filter_congr fun other _ => ?_
      by_cases same : other = row <;> simp [same]
    have left : row ∈ r.missing supply := by
      rw [missing, List.mem_filter]
      exact ⟨h, by simpa using new⟩
    have shorter : ((r.missing supply).filter (· ≠ row)).length < (r.missing supply).length :=
      List.length_filter_lt_length_iff_exists.2 ⟨row, left, by simp⟩
    rw [size, size, fewer, List.length_append, List.length_singleton]
    omega

theorem size_foldl_addRow_le (h : ∀ row ∈ rows, row ∈ supply) :
    (rows.foldl addRow r).size supply ≤ r.size supply := by
  induction rows generalizing r with
  | nil => exact Nat.le_refl _
  | cons row rest ih =>
    rw [List.forall_mem_cons] at h
    exact Nat.le_trans (ih h.2) (size_addRow_le h.1)

end Recursion

namespace Tables

/-- Looks at the rows of the queue one after another. -/
def lookAll (t : Tables) (limit : Nat) (r : Recursion) : List (String × Nat) :=
  match r with
  | ⟨known, []⟩ => known
  | ⟨known, row :: rest⟩ =>
    t.lookAll limit ((t.furtherRows limit row).foldl Recursion.addRow ⟨known, rest⟩)
termination_by r.size (t.possibleRows limit)
decreasing_by
  refine Nat.lt_of_le_of_lt
    (Recursion.size_foldl_addRow_le fun _ => mem_possibleRows_of_mem_furtherRows) ?_
  show rest.length + _ < rest.length + 1 + _
  exact Nat.add_lt_add_right (Nat.lt_succ_self _) _

/-- All rows that come up for a key. -/
def dependentRows (t : Tables) (key : String) (limit : Nat) : List (String × Nat) :=
  let first := (t.sourcesInto key).map fun source => (source, 1)
  t.lookAll limit (first.foldl Recursion.addRow {})

/-- The least number of steps that a key has in rows. -/
def leastSteps (rows : List (String × Nat)) (key : String) : Nat :=
  (((rows.filter (·.1 = key)).map (·.2)).min?).getD 0

/-- What depends on a key within a number of steps, with the least number of steps, by that number
and then by text. The direct dependents are always listed. -/
def dependentsWithin (t : Tables) (key : String) (limit : Nat) : List (String × Nat) :=
  let rows := (t.dependentRows key limit).filter (·.1 ≠ key)
  let groups := (Sorted.distinct (rows.map (·.1))).map fun source => (source, leastSteps rows source)
  groups.mergeSort fun a b => a.2 < b.2 || (a.2 = b.2 && Sorted.le a.1 b.1)

end Tables

end LayerGraph
