import LayerGraph.Proofs.Dependents
import LayerGraph.Proofs.ShortestPaths

/-!
# Known nodes

An impact query says whether the stored graph has the node that it was asked about. It looks the node
up only if nothing depends on it; what something depends on passes for known. That is right as long
as every edge ends in a stored node. Edges are stored with or without their ends, though: the write
of a node may have failed or still be to come, and a prune takes a node away that the last run did
not write. Then a node that is not there is reported as known.

Main statements:
1. `known_impact_iff`: which nodes pass for known.
2. `forall_used_mem_keys_iff`: it is the edges without a target that make the difference.
3. `GraphStore.impact_known_iff`: what a store reports as known, and when all its reports are right.
-/

namespace LayerGraph

namespace StoredGraph

variable {m : StoredGraph} {k : NodeKey} {depth : Nat}

/-! ## Used keys -/

/-- Another key leads to the key along at most so many stored edges. Keys with blank names are left
out, as they are in every answer. -/
def IsUsed (m : StoredGraph) (depth : Nat) (k : NodeKey) : Prop :=
  ∃ n, isReadable n = true ∧ n ≠ k ∧ ∃ d ≤ depth, Steps m.Depends d n k

/-- Each stored edge from one key to another has a stored node at its target. -/
def HasTargets (m : StoredGraph) : Prop :=
  ∀ e ∈ m.edgeList, e.source ≠ e.target → e.target ∈ m.keys

instance : Decidable m.HasTargets :=
  inferInstanceAs (Decidable (∀ e ∈ m.edgeList, e.source ≠ e.target → e.target ∈ m.keys))

theorem dependentsWithin_eq_nil_iff (hdepth : 1 ≤ depth) :
    m.dependentsWithin k depth = [] ↔ ¬ m.IsUsed depth k := by
  rw [List.eq_nil_iff_forall_not_mem, ← not_exists, not_iff_not]
  constructor
  · rintro ⟨⟨n, d⟩, hrow⟩
    obtain ⟨hread, hpos, hle, hdist⟩ := mem_dependentsWithin.1 hrow
    rw [max_eq_left hdepth] at hle
    refine ⟨n, hread, ?_, d, hle, hdist.steps⟩
    rintro rfl
    exact absurd (hdist.le (.refl n)) (Nat.not_le.2 hpos)
  · rintro ⟨n, hread, hne, d, hle, steps⟩
    obtain ⟨i, hi, hdist⟩ := exists_distance steps
    refine ⟨(n, i), mem_dependentsWithin.2 ⟨hread, Nat.pos_of_ne_zero ?_, by omega, hdist⟩⟩
    rintro rfl
    exact hne (distance_zero_iff.1 hdist)

theorem known_impact_iff (limits : QueryLimits) (m : StoredGraph) (k : NodeKey) (maxDepth : Nat) :
    (Query.impact limits m k maxDepth).known = true ↔
      k ∈ m.keys ∨ m.IsUsed (Query.clamp maxDepth limits.maxDepth) k := by
  show (!(m.dependentsWithin k _).isEmpty || m.contains k) = true ↔ _
  rw [Bool.or_eq_true, contains_iff, or_comm, Bool.not_eq_true', List.isEmpty_eq_false_iff, Ne,
    dependentsWithin_eq_nil_iff (Query.one_le_clamp maxDepth limits.maxDepth), not_not]

/-! ## Edges without a target -/

/-- The last of the fewest steps to a key comes from another key. -/
theorem IsUsed.exists_edge (h : m.IsUsed depth k) :
    ∃ e ∈ m.edgeList, e.source ≠ e.target ∧ e.target = k := by
  obtain ⟨n, -, hne, d, -, steps⟩ := h
  obtain ⟨i, -, hdist⟩ := exists_distance steps
  have hpos : 1 ≤ i := by
    refine Nat.pos_of_ne_zero ?_
    rintro rfl
    exact hne (distance_zero_iff.1 hdist)
  obtain ⟨v, hv⟩ := hdist.exists_nearer hpos
  obtain ⟨w, ⟨e, he, hsource, htarget⟩, rest⟩ := steps_succ_iff.1 hv.steps
  obtain rfl := steps_zero_iff.1 rest
  refine ⟨e, he, fun same => ?_, htarget⟩
  have self : v = w := hsource.symm.trans (same.trans htarget)
  exact absurd (hv.unique (distance_zero_iff.2 self)) Nat.one_ne_zero

/-- How far dependents are looked for does not matter here: those one step away tell. -/
theorem forall_used_mem_keys_iff (readable : m.Readable) (hdepth : 1 ≤ depth) :
    (∀ k, m.IsUsed depth k → k ∈ m.keys) ↔ m.HasTargets := by
  constructor
  · intro stored e he hne
    refine stored e.target ⟨e.source, (readable.edges e he).1, hne, 1, hdepth, ?_⟩
    exact .head ⟨e, he, rfl, rfl⟩ (.refl _)
  · intro targets k used
    obtain ⟨e, he, hne, rfl⟩ := used.exists_edge
    exact targets e he hne

end StoredGraph

namespace GraphStore

open StoredGraph

/-- What a store reports as known, whatever has been written to it: its nodes, and besides them what
other keys depend on within the depth. All reports are right just when no edge lacks its target. -/
theorem impact_known_iff {ws : List Write} {s : GraphStore} {disk : Disk} {limits : QueryLimits}
    (answers : s.Answers disk limits.timeout [.ping, .dependentsWithin, .containsNode]
      (ws.foldl StoredGraph.after {})) (maxDepth : Nat) :
    let m := ws.foldl StoredGraph.after {}
    ∃ report : NodeKey → Impact,
      (∀ k, (s.impact disk limits k maxDepth).1 = .available (report k)) ∧
      (∀ k, (report k).known = true ↔
        k ∈ m.keys ∨ m.IsUsed (Query.clamp maxDepth limits.maxDepth) k) ∧
      ((∀ w ∈ ws, w.IsNamed) →
        ((∀ k, (report k).known = true ↔ k ∈ m.keys) ↔ m.HasTargets)) := by
  intro m
  have known := fun k => known_impact_iff limits m k maxDepth
  refine ⟨fun k => Query.impact limits m k maxDepth, fun k => answers.impact k maxDepth, known,
    fun named => ?_⟩
  rw [← forall_used_mem_keys_iff (readable_foldl_after named)
    (Query.one_le_clamp maxDepth limits.maxDepth)]
  refine forall_congr' fun k => ?_
  rw [known, or_iff_left_iff_imp]

/-- Half way through a sync a class is missing, but it is the source of an edge and not a target. -/
theorem impact_known_iff_halfDone :
    let a : NodeKey := ⟨.classDef, "A"⟩
    let t : NodeKey := ⟨.table, "T"⟩
    let p : NodeKey := ⟨.page, "P"⟩
    let ws : List Write := [.node ⟨t, -1⟩ "run", .node ⟨a, -1⟩ "run", .edge ⟨p, a, .usesClass⟩ "run",
      .edge ⟨a, t, .usesTable⟩ "run"]
    let m := ws.foldl StoredGraph.after {}
    let s : GraphStore := { place := .memory m }
    (∀ w ∈ ws, w.IsNamed) ∧ m.HasTargets ∧ a ∈ m.keys ∧ p ∉ m.keys ∧
      ∃ report : NodeKey → Impact, (∀ k, (s.impact {} {} k 3).1 = .available (report k)) ∧
        ∀ k, (report k).known = true ↔ k ∈ m.keys := by
  intro a t p ws m s
  have named : ∀ w ∈ ws, w.IsNamed := by decide
  have targets : m.HasTargets := by decide
  have answers := answers_memory m {} ({} : QueryLimits).timeout
    [.ping, .dependentsWithin, .containsNode]
  obtain ⟨report, reports, -, right⟩ := impact_known_iff answers 3
  exact ⟨named, targets, by decide, by decide, report, reports, (right named).2 targets⟩

/-- A table of which only a use has been stored is reported as known. -/
theorem impact_knows_missing :
    let a : NodeKey := ⟨.classDef, "A"⟩
    let t : NodeKey := ⟨.table, "T"⟩
    let ws : List Write := [.node ⟨a, -1⟩ "run", .edge ⟨a, t, .usesTable⟩ "run"]
    let m := ws.foldl StoredGraph.after {}
    let s : GraphStore := { place := .memory m }
    let report : Impact :=
      { target := t, known := true, maxDepth := 3, byDepth := [(1, [a])],
        byType := [(.classDef, [a])], total := 1 }
    (∀ w ∈ ws, w.IsNamed) ∧ isReadable t = true ∧
      s.Answers {} ({} : QueryLimits).timeout [.ping, .dependentsWithin, .containsNode] m ∧
      (s.impact {} {} t 3).1 = .available report ∧ t ∉ m.keys := by
  intro a t ws m s report
  have answers := answers_memory m {} ({} : QueryLimits).timeout
    [.ping, .dependentsWithin, .containsNode]
  have evaluated : Query.impact {} m t 3 = report := by cbv
  have available := answers.impact t 3
  rw [evaluated] at available
  exact ⟨by decide, by decide, answers, available, by decide⟩

end GraphStore

end LayerGraph
