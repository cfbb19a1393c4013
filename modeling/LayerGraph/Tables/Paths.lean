import LayerGraph.Multimap
import LayerGraph.Tables

/-!
# Shortest paths in tables

The shortest paths between two keys, along edges in either direction, are found in two passes. The
first one goes out from the source level by level and notes for each key the keys of the level
before that lead to it. What has been visited is brought up to date between levels only, so a key is
noted for each key that leads to it. The second pass goes back from the target along what was noted,
with a stack of paths that are not finished, in the order of the texts, until enough paths have been
finished.

The second pass comes to an end because what was noted for a key is always of an earlier level. This
does not show in the second pass alone, so what it is given tells it (`Trace`).

Main statements:
1. `mem_found_scanLevel`, `mem_parents_scanLevel`: what a level finds and what it notes.
2. `Trace.weight_eq`: how much there is to go back to from a key.
-/

namespace LayerGraph

namespace Tables

/-- What an edge joins to a key, in either direction, each key once and by text. -/
def neighbours (t : Tables) (key : String) : List String :=
  Sorted.distinct
    ((t.edges.filter (·.source = key)).map EdgeColumns.target ++
      (t.edges.filter (·.target = key)).map EdgeColumns.source)

/-- For each key that was found, the keys that led to it. -/
abbrev Parents := Multimap String String

/-! ## One level -/

/-- A level under way: what has been noted, and the keys found for the next level, each as often as
it was found. -/
structure Scan where
  parents : Parents
  found : List String := []

/-- A neighbour is noted, unless an earlier level has visited it. -/
def Scan.add (visited : List String) (key : String) (s : Scan) (neighbour : String) : Scan :=
  if visited.contains neighbour then s
  else { parents := s.parents.push neighbour key, found := s.found ++ [neighbour] }

/-- Notes all neighbours of a key. -/
def scanKey (t : Tables) (visited : List String) (s : Scan) (key : String) : Scan :=
  (t.neighbours key).foldl (Scan.add visited key) s

/-- Notes all neighbours of the keys of a level. -/
def scanLevel (t : Tables) (parents : Parents) (visited frontier : List String) : Scan :=
  frontier.foldl (t.scanKey visited) { parents }

section Scan

variable {t : Tables} {key u v x : String} {visited frontier ns : List String} {s : Scan}
  {parents : Parents}

/-- An edge joins the two keys, in either direction. -/
def Linked (t : Tables) (u v : String) : Prop :=
  ∃ e ∈ t.edges, (e.source = u ∧ e.target = v) ∨ (e.source = v ∧ e.target = u)

theorem Linked.symm (h : t.Linked u v) : t.Linked v u := by
  obtain ⟨e, he, joins⟩ := h
  exact ⟨e, he, joins.symm⟩

theorem mem_neighbours : u ∈ t.neighbours v ↔ t.Linked u v := by
  unfold neighbours Linked
  simp only [Sorted.mem_distinct, List.mem_append, List.mem_map, List.mem_filter,
    decide_eq_true_eq, and_or_left, exists_or]
  rw [or_comm]
  refine or_congr (exists_congr fun e => ?_) (exists_congr fun e => ?_)
  · rw [and_assoc, and_comm (a := e.target = v)]
  · rw [and_assoc]

theorem mem_found_add {n : String} :
    x ∈ (s.add visited key n).found ↔ x ∈ s.found ∨ (x ∉ visited ∧ x = n) := by
  unfold Scan.add
  split
  · next seen =>
    rw [List.contains_iff_mem] at seen
    exact (or_iff_left fun ⟨unseen, same⟩ => unseen (same ▸ seen)).symm
  · next unseen =>
    rw [List.contains_iff_mem] at unseen
    rw [List.mem_append, List.mem_singleton]
    exact or_congr_right (and_iff_right_of_imp fun same => same ▸ unseen).symm

theorem mem_parents_add {n : String} :
    v ∈ (s.add visited key n).parents.of x ↔
      v ∈ s.parents.of x ∨ (x ∉ visited ∧ x = n ∧ v = key) := by
  unfold Scan.add
  split
  · next seen =>
    rw [List.contains_iff_mem] at seen
    exact (or_iff_left fun ⟨unseen, same, _⟩ => unseen (same ▸ seen)).symm
  · next unseen =>
    rw [List.contains_iff_mem] at unseen
    rw [Multimap.of_push]
    split
    · next same =>
      rw [List.mem_append, List.mem_singleton]
      exact or_congr_right ⟨fun hv => ⟨same ▸ unseen, same, hv⟩, fun h => h.2.2⟩
    · next other =>
      exact (or_iff_left fun h => other h.2.1).symm

theorem mem_found_foldl_add :
    x ∈ (ns.foldl (Scan.add visited key) s).found ↔ x ∈ s.found ∨ (x ∉ visited ∧ x ∈ ns) := by
  induction ns generalizing s with
  | nil => simp
  | cons n rest ih =>
    rw [List.foldl_cons, ih, mem_found_add, List.mem_cons, and_or_left, or_assoc]

theorem mem_parents_foldl_add :
    v ∈ (ns.foldl (Scan.add visited key) s).parents.of x ↔
      v ∈ s.parents.of x ∨ (x ∉ visited ∧ x ∈ ns ∧ v = key) := by
  induction ns generalizing s with
  | nil => simp
  | cons n rest ih =>
    rw [List.foldl_cons, ih, mem_parents_add, List.mem_cons, or_and_right, and_or_left, or_assoc]

/-- What a level finds: the keys linked to one of its own that have not been visited. -/
theorem mem_found_scanLevel : x ∈ (t.scanLevel parents visited frontier).found ↔
    x ∉ visited ∧ ∃ k ∈ frontier, t.Linked x k := by
  have scans : ∀ (ks : List String) (s : Scan), x ∈ (ks.foldl (t.scanKey visited) s).found ↔
      x ∈ s.found ∨ (x ∉ visited ∧ ∃ k ∈ ks, t.Linked x k) := by
    intro ks
    induction ks with
    | nil => simp
    | cons k rest ih =>
      intro s
      rw [List.foldl_cons, ih, scanKey, mem_found_foldl_add, mem_neighbours]
      simp only [List.mem_cons, or_and_right, exists_or, exists_eq_left, and_or_left, or_assoc]
  rw [scanLevel, scans]
  exact or_iff_right List.not_mem_nil

/-- What a level notes: for each key it finds, the keys of its own that are linked to this one. -/
theorem mem_parents_scanLevel : v ∈ (t.scanLevel parents visited frontier).parents.of x ↔
    v ∈ parents.of x ∨ (x ∉ visited ∧ v ∈ frontier ∧ t.Linked x v) := by
  have scans : ∀ (ks : List String) (s : Scan),
      v ∈ (ks.foldl (t.scanKey visited) s).parents.of x ↔
        v ∈ s.parents.of x ∨ (x ∉ visited ∧ v ∈ ks ∧ t.Linked x v) := by
    intro ks
    induction ks with
    | nil => simp
    | cons k rest ih =>
      intro s
      rw [List.foldl_cons, ih, scanKey, mem_parents_foldl_add, mem_neighbours, List.mem_cons,
        or_assoc, ← and_or_left, or_and_right]
      refine or_congr_right (and_congr_right fun _ => or_congr_left ?_)
      constructor
      · rintro ⟨linked, rfl⟩
        exact ⟨rfl, linked⟩
      · rintro ⟨rfl, linked⟩
        exact ⟨linked, rfl⟩
  exact scans frontier { parents }

end Scan

/-! ## Outward -/

/-- What was noted, if each key leads to earlier ones only. -/
structure Trace where
  parents : Parents
  earlier : ∃ rank : String → Nat, ∀ x, ∀ v ∈ parents.of x, rank v < rank x

/-- A search that has come out to a level: what has been noted, all keys that were visited, and those
of the level. Keys were noted for keys that were visited, and these have been visited too. -/
structure Outward where
  parents : Parents
  visited : List String
  frontier : List String
  frontier_visited : ∀ v ∈ frontier, v ∈ visited
  noted_visited : ∀ x, ∀ v ∈ parents.of x, v ∈ visited ∧ x ∈ visited
  earlier : ∃ rank : String → Nat, ∀ x, ∀ v ∈ parents.of x, rank v < rank x

namespace Outward

theorem of_empty (x : String) : Multimap.of ({} : Parents) x = [] :=
  Std.TreeMap.getD_emptyc

/-- Before the first level. -/
def start (source : String) : Outward where
  parents := {}
  visited := [source]
  frontier := [source]
  frontier_visited _ h := h
  noted_visited x _ h := absurd (of_empty x ▸ h) List.not_mem_nil
  earlier := ⟨fun _ => 0, fun x _ h => absurd (of_empty x ▸ h) List.not_mem_nil⟩

/-- What has been noted for keys that were not visited before comes later than all that was. -/
theorem earlier_of_rank {parents : Parents} (visited : List String) (rank : String → Nat)
    (earlier : ∀ x, x ∈ visited → ∀ v ∈ parents.of x, rank v < rank x)
    (noted_visited : ∀ x, ∀ v ∈ parents.of x, v ∈ visited) :
    ∃ rank : String → Nat, ∀ x, ∀ v ∈ parents.of x, rank v < rank x := by
  let above := (visited.map rank).max?.getD 0 + 1
  refine ⟨fun x => if x ∈ visited then rank x else above, fun x v hv => ?_⟩
  have hvisited := noted_visited x v hv
  dsimp only
  rw [if_pos hvisited]
  split
  · next hx => exact earlier x hx v hv
  · exact Nat.lt_succ_of_le (List.le_max?_getD_of_mem (List.mem_map_of_mem hvisited))

/-- One level further out. -/
def next (t : Tables) (o : Outward) : Outward :=
  let scan := t.scanLevel o.parents o.visited o.frontier
  let next := Sorted.distinct scan.found
  { parents := scan.parents
    visited := o.visited ++ next
    frontier := next
    frontier_visited := fun _ h => List.mem_append_right _ h
    noted_visited := by
      intro x v hv
      rcases mem_parents_scanLevel.1 hv with before | ⟨unseen, hfrontier, linked⟩
      · obtain ⟨hv, hx⟩ := o.noted_visited x v before
        exact ⟨List.mem_append_left _ hv, List.mem_append_left _ hx⟩
      · refine ⟨List.mem_append_left _ (o.frontier_visited v hfrontier), ?_⟩
        refine List.mem_append_right _ (Sorted.mem_distinct.2 ?_)
        exact mem_found_scanLevel.2 ⟨unseen, v, hfrontier, linked⟩
    earlier := by
      obtain ⟨rank, earlier⟩ := o.earlier
      refine earlier_of_rank o.visited rank ?_ ?_
      · intro x hx v hv
        rcases mem_parents_scanLevel.1 hv with before | ⟨unseen, -⟩
        · exact earlier x v before
        · exact absurd hx unseen
      · intro x v hv
        rcases mem_parents_scanLevel.1 hv with before | ⟨-, hfrontier, -⟩
        · exact (o.noted_visited x v before).1
        · exact o.frontier_visited v hfrontier }

/-- What has been noted leads to earlier keys. -/
def trace (o : Outward) : Trace := { parents := o.parents, earlier := o.earlier }

end Outward

/-- Goes outward until the target is found: what has been noted by then, if the target is not too far
away. -/
def traceTo? (t : Tables) (target : String) : Nat → Outward → Option Trace
  | 0, _ => none
  | hops + 1, o =>
    let next := o.next t
    if next.frontier.isEmpty then none
    else if next.frontier.contains target then some next.trace
    else t.traceTo? target hops next

/-! ## Back to the source -/

namespace Trace

/-- The sum of weights. -/
def total (weights : List Nat) : Nat :=
  weights.foldr (fun weight rest => weight + rest) 0

/-- How many keys there are to go back to from a key, on all ways. -/
noncomputable def weight (trace : Trace) (key : String) : Nat :=
  total ((Sorted.distinct (trace.parents.of key)).attach.map fun v => trace.weight v.1) + 1
termination_by trace.earlier.choose key
decreasing_by exact trace.earlier.choose_spec key v.1 (Sorted.mem_distinct.1 v.2)

/-- What there is to go back to along the paths of a stack, from the first key of each. -/
noncomputable def stackWeight (trace : Trace) (stack : List (List String)) : Nat :=
  total (stack.map fun path => (path.head?.map trace.weight).getD 1)

variable {trace : Trace} {key : String} {tail : List String} {rest : List (List String)}

theorem stackWeight_nil_cons : trace.stackWeight ([] :: rest) = 1 + trace.stackWeight rest := rfl

theorem stackWeight_cons :
    trace.stackWeight ((key :: tail) :: rest) = trace.weight key + trace.stackWeight rest := rfl

theorem weight_eq (trace : Trace) (key : String) (tail : List String) : trace.weight key =
    trace.stackWeight ((Sorted.distinct (trace.parents.of key)).map (· :: key :: tail)) + 1 := by
  rw [weight, stackWeight, List.map_map, List.attach_map_val (f := trace.weight)]
  rfl

theorem stackWeight_append (stack : List (List String)) :
    trace.stackWeight (stack ++ rest) = trace.stackWeight stack + trace.stackWeight rest := by
  induction stack with
  | nil => exact (Nat.zero_add _).symm
  | cons path stack ih =>
    show _ + trace.stackWeight (stack ++ rest) = _ + trace.stackWeight stack + _
    rw [ih, Nat.add_assoc]

end Trace

/-- Goes back along what was noted. A path on the stack leads from its first key to the target. The
paths that were finished are given in the end, at most `limit` of them. -/
def goBack (trace : Trace) (source : String) (limit : Nat) (stack : List (List String))
    (finished : List (List String)) : List (List String) :=
  match stack with
  | [] => finished
  | path :: rest =>
    if limit ≤ finished.length then finished
    else
      match path with
      | [] => goBack trace source limit rest finished
      | key :: tail =>
        if key = source then goBack trace source limit rest (finished ++ [key :: tail])
        else
          let further := (Sorted.distinct (trace.parents.of key)).map (· :: key :: tail)
          goBack trace source limit (further ++ rest) finished
termination_by trace.stackWeight stack
decreasing_by
  · rw [Trace.stackWeight_nil_cons]
    omega
  · rw [Trace.stackWeight_cons, trace.weight_eq key tail]
    omega
  · rw [Trace.stackWeight_append, Trace.stackWeight_cons, trace.weight_eq key tail]
    omega

/-- The shortest paths between two keys, up to a number of hops, at most `limit` of them. -/
def shortestPaths (t : Tables) (source target : String) (hops limit : Nat) : List (List String) :=
  if !(t.contains source && t.contains target) then []
  else if source = target then [[source]]
  else
    match t.traceTo? target hops (.start source) with
    | none => []
    | some trace => goBack trace source limit [[target]] []

end Tables

end LayerGraph
