import LayerGraph.GraphStore
import LayerGraph.Proofs.GraphInvariant
import LayerGraph.Proofs.StoredTables
import LayerGraph.Proofs.SyncWrites
import Mathlib.Data.List.Perm.Basic

/-!
# What a run leaves in the graph store

A run of writes may meet any faults and its writes may come in any order. In the end the report
accounts for each node and each edge, the failures by item. A run without failures that is allowed
to remove stale rows leaves a mirror of the graph, with all its columns, whatever the tables held
before: their rows need not be those of keys, and their columns need not go together. Any other run
removes nothing, and all its successful writes are there.

A store keeps the rows of nodes and edges only, of which its tables are the columns. A run does the
same to both.

Main statements:
1. `outcome_runIn`: the outcome of a run on tables.
2. `runIn_tables`: a run on a stored graph and on its tables.
3. `sync_outcome`: the outcome of a run, for all tables and all orders of its writes, and of a
   store's run as one of them.
-/

namespace LayerGraph

instance : Std.TransOrd SyncFailure :=
  inferInstanceAs (Std.TransCmp
    (compareLex (compareOn SyncFailure.item) (compareOn SyncFailure.reason)))

/-- What the row of an edge is found by, when the edge is written. -/
def Edge.texts (e : Edge) : EdgeTexts :=
  ⟨e.source.text, e.target.text, e.kind.name⟩

theorem Edge.texts_injective : Function.Injective Edge.texts := by
  intro e e' h
  exact Edge.key_columns_eq_iff.1 (show (e.columns "").key = (e'.columns "").key from h)

namespace Tables

/-- No two rows are found by the same texts. -/
structure Keyed (t : Tables) : Prop where
  nodes : (t.nodes.map NodeColumns.key).Nodup
  edges : (t.edges.map EdgeColumns.key).Nodup

/-- The run has not written to the tables before. -/
structure Fresh (run : String) (t : Tables) : Prop where
  nodes : ∀ r ∈ t.nodes, r.run ≠ run
  edges : ∀ r ∈ t.edges, r.run ≠ run

/-- The tables hold each node and each edge of the graph once, with all columns as the run writes
them, and nothing else. -/
structure Mirrors (run : String) (g : Graph) (t : Tables) : Prop where
  nodes : t.nodes.Perm (g.nodes.map (·.columns run))
  edges : t.edges.Perm (g.edges.map (·.columns run))

theorem foldl_putNode (run : String) (xs : List Node) (t : Tables) :
    xs.foldl (RowStore.putNode · · run) t =
      { t with nodes := (xs.map (·.columns run)).foldl (Rows.put NodeColumns.key) t.nodes } := by
  induction xs generalizing t with
  | nil => rfl
  | cons n rest ih =>
    rw [List.foldl_cons, ih]
    rfl

theorem foldl_putEdge (run : String) (xs : List Edge) (t : Tables) :
    xs.foldl (RowStore.putEdge · · run) t =
      { t with edges := (xs.map (·.columns run)).foldl (Rows.put EdgeColumns.key) t.edges } := by
  induction xs generalizing t with
  | nil => rfl
  | cons e rest ih =>
    rw [List.foldl_cons, ih]
    rfl

end Tables

namespace Sync

open StoredGraph

variable {limits : SyncLimits} {faults : Faults} {run : String} {g : Graph} {nodes : List Node}
  {edges : List Edge} {t : Tables} {m : StoredGraph}

/-- The rows that the writes of nodes leave. -/
def nodeRows (faults : Faults) (run : String) (nodes : List Node) : List NodeColumns :=
  (landing faults.node? nodes).map (·.columns run)

/-- The rows that the writes of edges leave. -/
def edgeRows (faults : Faults) (run : String) (edges : List Edge) : List EdgeColumns :=
  (landing faults.edge? edges).map (·.columns run)

theorem map_key_nodeRows (faults : Faults) (run : String) (nodes : List Node) :
    (nodeRows faults run nodes).map NodeColumns.key =
      (landing faults.node? nodes).map (·.key.text) := by
  rw [nodeRows, List.map_map]
  rfl

theorem map_key_edgeRows (faults : Faults) (run : String) (edges : List Edge) :
    (edgeRows faults run edges).map EdgeColumns.key =
      (landing faults.edge? edges).map Edge.texts := by
  rw [edgeRows, List.map_map]
  rfl

theorem written_tables (faults : Faults) (run : String) (nodes : List Node) (edges : List Edge)
    (t : Tables) : written faults run nodes edges t =
      { nodes := (nodeRows faults run nodes).foldl (Rows.put NodeColumns.key) t.nodes
        edges := (edgeRows faults run edges).foldl (Rows.put EdgeColumns.key) t.edges } := by
  rw [written, Tables.foldl_putNode, Tables.foldl_putEdge]
  rfl

/-! ## What a run has to answer for -/

/-- No write of the graph meets a fault. -/
def Clean (faults : Faults) (g : Graph) : Prop :=
  (∀ n ∈ g.nodes, faults.node? n = none) ∧ ∀ e ∈ g.edges, faults.edge? e = none

/-- The report counts each node and each edge as synced or failed, and lists those that failed by
item. -/
structure Accounts (faults : Faults) (g : Graph) (report : SyncReport) : Prop where
  nodes_total : report.nodesSynced + report.failedNodes.length = g.nodeCount
  edges_total : report.edgesSynced + report.failedEdges.length = g.edgeCount
  failedNodes_perm : report.failedNodes.Perm (failures (·.key.text) faults.node? g.nodes)
  failedEdges_perm : report.failedEdges.Perm (failures edgeItem faults.edge? g.edges)
  failedNodes_sorted : report.failedNodes.Pairwise fun a b => Sorted.le a b = true
  failedEdges_sorted : report.failedEdges.Pairwise fun a b => Sorted.le a b = true

/-- The run meets no fault and is allowed to remove what other runs wrote. -/
def Removes (limits : SyncLimits) (faults : Faults) (g : Graph) : Prop :=
  Clean faults g ∧ limits.pruneStale = true ∧ faults.prune? = none

/-- From `t` to `t'` no row has gone, rows that no successful write went to are as they were, and
every successful write is there. -/
structure Retains (faults : Faults) (run : String) (g : Graph) (t t' : Tables) : Prop where
  nodes_kept : ∀ r ∈ t.nodes, ∃ r' ∈ t'.nodes, r'.key = r.key
  edges_kept : ∀ r ∈ t.edges, ∃ r' ∈ t'.edges, r'.key = r.key
  nodes_untouched : ∀ r ∈ t.nodes,
    (∀ n ∈ g.nodes, n.key.text = r.key → faults.node? n ≠ none) → r ∈ t'.nodes
  edges_untouched : ∀ r ∈ t.edges,
    (∀ e ∈ g.edges, e.texts = r.key → faults.edge? e ≠ none) → r ∈ t'.edges
  nodes_written : ∀ n ∈ g.nodes, faults.node? n = none → n.columns run ∈ t'.nodes
  edges_written : ∀ e ∈ g.edges, faults.edge? e = none → e.columns run ∈ t'.edges

/-- What came of a run that found the tables `t`. -/
structure Outcome (limits : SyncLimits) (faults : Faults) (run : String) (g : Graph) (t : Tables)
    (report : SyncReport) (t' : Tables) : Prop where
  accounts : Accounts faults g report
  keyed : t'.Keyed
  mirrors : Removes limits faults g → t'.Mirrors run g ∧
    report.pruned.nodes = t.nodes.countP (·.key ∉ g.nodes.map (·.key.text)) ∧
    report.pruned.edges = t.edges.countP (·.key ∉ g.edges.map Edge.texts)
  retains : ¬ Removes limits faults g → Retains faults run g t t' ∧ report.pruned = {}

/-! ## The outcome of a run -/

section Outcome

variable (hg : g.WellFormed) (hnodes : nodes.Perm g.nodes) (hedges : edges.Perm g.edges)

include hnodes hedges

theorem accounts_reportOf (faults : Faults) (run : String) :
    Accounts faults g (reportOf faults run nodes edges) where
  nodes_total := by
    show (landing faults.node? nodes).length + (Sorted.sort (failures _ _ nodes)).length = _
    rw [Sorted.length_sort, length_landing_add]
    exact hnodes.length_eq
  edges_total := by
    show (landing faults.edge? edges).length + (Sorted.sort (failures _ _ edges)).length = _
    rw [Sorted.length_sort, length_landing_add]
    exact hedges.length_eq
  failedNodes_perm := (Sorted.perm_sort _).trans (failures_perm _ _ hnodes)
  failedEdges_perm := (Sorted.perm_sort _).trans (failures_perm _ _ hedges)
  failedNodes_sorted := Sorted.pairwise_sort _
  failedEdges_sorted := Sorted.pairwise_sort _

theorem isComplete_reportOf (faults : Faults) (run : String) :
    (reportOf faults run nodes edges).isComplete = true ↔ Clean faults g := by
  have sort_nil : ∀ fs : List SyncFailure, Sorted.sort fs = [] ↔ fs = [] := by
    intro fs
    rw [← List.length_eq_zero_iff, Sorted.length_sort, List.length_eq_zero_iff]
  unfold SyncReport.isComplete reportOf Clean
  simp only [Option.isNone_none, Bool.true_and, Bool.and_eq_true, List.isEmpty_iff, sort_nil,
    failures_eq_nil_iff, hnodes.mem_iff, hedges.mem_iff]

omit hedges

include hg

theorem nodup_nodeRows (faults : Faults) (run : String) :
    ((nodeRows faults run nodes).map NodeColumns.key).Nodup := by
  have keys : (nodes.map Node.key).Nodup := (hnodes.map Node.key).nodup_iff.2 hg.keys_nodup
  have texts : (nodes.map (·.key.text)).Nodup := by
    rw [← Function.comp_def NodeKey.text Node.key, ← List.map_map]
    exact keys.map fun _ _ => NodeKey.text_injective
  rw [map_key_nodeRows]
  exact texts.sublist (List.filter_sublist.map _)

omit hnodes

include hedges

theorem nodup_edgeRows (faults : Faults) (run : String) :
    ((edgeRows faults run edges).map EdgeColumns.key).Nodup := by
  have texts : (edges.map Edge.texts).Nodup :=
    (hedges.nodup_iff.2 hg.edges_nodup).map Edge.texts_injective
  rw [map_key_edgeRows]
  exact texts.sublist (List.filter_sublist.map _)

include hnodes

/-- A run without failures that removes stale rows leaves a mirror of the graph. -/
theorem mirrors_written (ht : t.Keyed) (fresh : t.Fresh run) (clean : Clean faults g) :
    ((written faults run nodes edges t).prune run).Mirrors run g ∧
      ((written faults run nodes edges t).pruneCount run).nodes =
        t.nodes.countP (·.key ∉ g.nodes.map (·.key.text)) ∧
      ((written faults run nodes edges t).pruneCount run).edges =
        t.edges.countP (·.key ∉ g.edges.map Edge.texts) := by
  have nodes_land : landing faults.node? nodes = nodes :=
    landing_of_forall fun n hn => clean.1 n (hnodes.mem_iff.1 hn)
  have edges_land : landing faults.edge? edges = edges :=
    landing_of_forall fun e he => clean.2 e (hedges.mem_iff.1 he)
  have distinct_nodes := nodup_nodeRows hg hnodes faults run
  have distinct_edges := nodup_edgeRows hg hedges faults run
  have new_nodes : ∀ r ∈ nodeRows faults run nodes, r.run = run :=
    List.forall_mem_map.2 fun _ _ => rfl
  have new_edges : ∀ r ∈ edgeRows faults run edges, r.run = run :=
    List.forall_mem_map.2 fun _ _ => rfl
  rw [written_tables]
  refine ⟨⟨?_, ?_⟩, ?_, ?_⟩
  · refine (Rows.filter_foldl_put ht.nodes distinct_nodes new_nodes fresh.nodes).trans ?_
    rw [nodeRows, nodes_land]
    exact hnodes.map _
  · refine (Rows.filter_foldl_put ht.edges distinct_edges new_edges fresh.edges).trans ?_
    rw [edgeRows, edges_land]
    exact hedges.map _
  · refine (Rows.countP_foldl_put ht.nodes distinct_nodes new_nodes fresh.nodes).trans ?_
    refine List.countP_congr fun r _ => ?_
    rw [decide_eq_true_iff, decide_eq_true_iff, map_key_nodeRows, nodes_land]
    exact not_congr (hnodes.map (·.key.text)).mem_iff
  · refine (Rows.countP_foldl_put ht.edges distinct_edges new_edges fresh.edges).trans ?_
    refine List.countP_congr fun r _ => ?_
    rw [decide_eq_true_iff, decide_eq_true_iff, map_key_edgeRows, edges_land]
    exact not_congr (hedges.map Edge.texts).mem_iff

/-- The writes take no row away, and those that land are there. -/
theorem retains_written : Retains faults run g t (written faults run nodes edges t) := by
  have distinct_nodes := nodup_nodeRows hg hnodes faults run
  have distinct_edges := nodup_edgeRows hg hedges faults run
  rw [written_tables]
  refine ⟨fun r hr => Rows.exists_of_foldl_put distinct_nodes hr,
    fun r hr => Rows.exists_of_foldl_put distinct_edges hr, ?_, ?_, ?_, ?_⟩
  · intro r hr fails
    refine Rows.mem_foldl_put_of_ne distinct_nodes hr fun w hw hkey => ?_
    obtain ⟨n, hn, rfl⟩ := List.mem_map.1 hw
    obtain ⟨hmem, hlands⟩ := mem_landing.1 hn
    exact fails n (hnodes.mem_iff.1 hmem) hkey hlands
  · intro r hr fails
    refine Rows.mem_foldl_put_of_ne distinct_edges hr fun w hw hkey => ?_
    obtain ⟨e, he, rfl⟩ := List.mem_map.1 hw
    obtain ⟨hmem, hlands⟩ := mem_landing.1 he
    exact fails e (hedges.mem_iff.1 hmem) hkey hlands
  · intro n hn hlands
    refine (Rows.mem_foldl_put distinct_nodes).2 (.inl ?_)
    exact List.mem_map.2 ⟨n, mem_landing.2 ⟨hnodes.mem_iff.2 hn, hlands⟩, rfl⟩
  · intro e he hlands
    refine (Rows.mem_foldl_put distinct_edges).2 (.inl ?_)
    exact List.mem_map.2 ⟨e, mem_landing.2 ⟨hedges.mem_iff.2 he, hlands⟩, rfl⟩

omit hg hnodes hedges in
theorem keyed_written (ht : t.Keyed) : (written faults run nodes edges t).Keyed := by
  rw [written_tables]
  exact ⟨Rows.nodup_foldl_put ht.nodes _, Rows.nodup_foldl_put ht.edges _⟩

theorem outcome_runIn (ht : t.Keyed) (fresh : t.Fresh run) :
    Outcome limits faults run g t (runIn limits faults run nodes edges t).1
      (runIn limits faults run nodes edges t).2 := by
  have accounts := accounts_reportOf hnodes hedges faults run
  have complete := isComplete_reportOf hnodes hedges faults run
  have keyed : (written faults run nodes edges t).Keyed := keyed_written ht
  have removes_iff : (limits.pruneStale && (reportOf faults run nodes edges).isComplete &&
      faults.prune?.isNone) = true ↔ Removes limits faults g := by
    rw [Bool.and_eq_true, Bool.and_eq_true, complete, Option.isNone_iff_eq_none, and_assoc,
      and_left_comm]
    rfl
  rw [runIn_eq]
  split
  · next hcond =>
    have removes := removes_iff.1 hcond
    -- what is removed shows only in the counts of removed rows
    refine ⟨{ accounts with }, ?_, fun _ => ?_, fun stays => absurd removes stays⟩
    · exact ⟨keyed.nodes.sublist (List.filter_sublist.map _),
        keyed.edges.sublist (List.filter_sublist.map _)⟩
    · exact mirrors_written hg hnodes hedges ht fresh removes.1
  · next hcond =>
    refine ⟨accounts, keyed, fun removes => absurd (removes_iff.2 removes) hcond, fun _ => ?_⟩
    exact ⟨retains_written hg hnodes hedges, rfl⟩

end Outcome

/-! ## Runs on stored graphs -/

theorem tables_written (faults : Faults) (run : String) (nodes : List Node) (edges : List Edge)
    (m : StoredGraph) :
    (written faults run nodes edges m).tables = written faults run nodes edges m.tables := by
  have on_nodes : ∀ (xs : List Node) (m : StoredGraph),
      (xs.foldl (RowStore.putNode · · run) m).tables =
        xs.foldl (RowStore.putNode · · run) m.tables := by
    intro xs
    induction xs with
    | nil => exact fun _ => rfl
    | cons n rest ih =>
      intro m
      rw [List.foldl_cons, ih]
      exact congrArg (rest.foldl (RowStore.putNode · · run)) (tables_putNode n run)
  have on_edges : ∀ (xs : List Edge) (m : StoredGraph),
      (xs.foldl (RowStore.putEdge · · run) m).tables =
        xs.foldl (RowStore.putEdge · · run) m.tables := by
    intro xs
    induction xs with
    | nil => exact fun _ => rfl
    | cons e rest ih =>
      intro m
      rw [List.foldl_cons, ih]
      exact congrArg (rest.foldl (RowStore.putEdge · · run)) (tables_putEdge e run)
  rw [written, on_edges, on_nodes]
  rfl

/-- A run reports the same of a stored graph and of its tables, and leaves the tables of what it
leaves. -/
theorem runIn_tables : runIn limits faults run nodes edges m.tables =
    ((runIn limits faults run nodes edges m).1, (runIn limits faults run nodes edges m).2.tables) := by
  rw [runIn_eq, runIn_eq, ← tables_written]
  split
  · refine Prod.ext ?_ (tables_prune run).symm
    exact congrArg (fun count => { reportOf faults run nodes edges with pruned := count })
      (tables_pruneCount run)
  · rfl

/-- The stored graph holds each node and each edge of the graph once, stamped with the run, and
nothing else. -/
structure Mirrors (run : String) (g : Graph) (m : StoredGraph) : Prop where
  nodes : m.nodes.Perm (g.nodes.map (⟨·, run⟩))
  edges : m.edges.Perm (g.edges.map (⟨·, run⟩))

/-- The run has not written to the stored graph before. -/
structure Fresh (run : String) (m : StoredGraph) : Prop where
  nodes : ∀ r ∈ m.nodes, r.run ≠ run
  edges : ∀ r ∈ m.edges, r.run ≠ run

theorem mirrors_of_tables (h : m.tables.Mirrors run g) : Mirrors run g m := by
  constructor
  · refine (List.map_perm_map_iff columns_node_injective).1 ?_
    rw [List.map_map]
    exact h.nodes
  · refine (List.map_perm_map_iff columns_edge_injective).1 ?_
    rw [List.map_map]
    exact h.edges

theorem fresh_tables (h : Fresh run m) : m.tables.Fresh run where
  nodes := List.forall_mem_map.2 h.nodes
  edges := List.forall_mem_map.2 h.edges

theorem keyed_tables (h : m.Keyed) : m.tables.Keyed := by
  constructor
  · have keys : m.tables.nodes.map NodeColumns.key = m.keys.map NodeKey.text := by
      simp [StoredGraph.tables, StoredGraph.keys, Node.columns]
    rw [keys]
    exact h.nodes.map fun _ _ => NodeKey.text_injective
  · have keys : m.tables.edges.map EdgeColumns.key = m.edgeList.map Edge.texts := by
      simp [StoredGraph.tables, StoredGraph.edgeList, Edge.columns, EdgeColumns.key, Edge.texts]
    rw [keys]
    exact h.edges.map Edge.texts_injective

/-- Whatever a run finds in the tables, and in whatever orders its writes come, the run has the
outcome that its faults allow. When a store answers, what it keeps and reports after a run is such an
outcome. -/
theorem sync_outcome (h : g.Reachable) :
    (∀ (t : Tables) faults nodes edges, t.Keyed → t.Fresh run → nodes.Perm g.nodes →
      edges.Perm g.edges → ∃ report t', runIn limits faults run nodes edges t = (report, t') ∧
        Outcome limits faults run g t report t') ∧
    ∀ (s s' : GraphStore) (disk disk' : Disk) (m : StoredGraph), m.Keyed → Fresh run m →
      s.ask disk limits.timeout .ping id = (.ok m, s', disk') →
      ∃ report m', s.sync disk limits run g = (report, s'.keep disk' m') ∧
        Outcome limits (s'.syncFaults disk' limits.timeout) run g m.tables report m'.tables := by
  have hg := h.wellFormed
  constructor
  · intro t faults nodes edges ht fresh hnodes hedges
    exact ⟨_, _, rfl, outcome_runIn hg hnodes hedges ht fresh⟩
  · intro s s' disk disk' m hm fresh answers
    let faults := s'.syncFaults disk' limits.timeout
    have outcome : Outcome limits faults run g m.tables
        (runIn limits faults run g.nodes g.sortedEdges m.tables).1
        (runIn limits faults run g.nodes g.sortedEdges m.tables).2 :=
      outcome_runIn hg (List.Perm.refl _) (Sorted.perm_sort _) (keyed_tables hm)
        (fresh_tables fresh)
    rw [runIn_tables] at outcome
    refine ⟨_, _, ?_, outcome⟩
    unfold GraphStore.sync
    rw [answers]
    rfl

/-- Rows that an earlier run and someone else have left: a node that the graph still has, with
columns that do not go with it, a key of no entity, and an edge between such texts. -/
def staleTables : Tables where
  nodes := [⟨"Class:A", "Table", "B", some "UI", 7, 2, "first"⟩, ⟨"?", "", "", none, 0, 0, ""⟩]
  edges := [⟨"?", "Class:A", "DRAWN", "first"⟩]

/-- Faults of a store that refuses the node `C`. -/
def refusing : Faults where
  node? n := if n.key.name = "C" then some (.internal "rejected C") else none

/-- A run on these rows, its writes in reverse order. -/
def rerun (faults : Faults) : SyncReport × Tables :=
  runIn {} faults "second" Graph.overlapping.nodes.reverse Graph.overlapping.edges.reverse
    staleTables

/-- Without failures the stale row and the stale edge go; when a node is refused, they stay. -/
theorem sync_outcome_rerun :
    Graph.overlapping.Reachable ∧ staleTables.Keyed ∧ staleTables.Fresh "second" ∧
    (rerun {}).2.Mirrors "second" Graph.overlapping ∧
    (rerun {}).1.pruned.nodes = 1 ∧ (rerun {}).1.pruned.edges = 1 ∧
    Retains refusing "second" Graph.overlapping staleTables (rerun refusing).2 := by
  have reachable : Graph.overlapping.Reachable := Graph.reachable_ofSteps _
  have keyed : staleTables.Keyed := ⟨by decide, by decide⟩
  have fresh : staleTables.Fresh "second" := ⟨by decide, by decide⟩
  have outcome (faults : Faults) : Outcome {} faults "second" Graph.overlapping staleTables
      (rerun faults).1 (rerun faults).2 := by
    obtain ⟨report, t', runs, outcome⟩ := (sync_outcome reachable).1 staleTables faults _ _ keyed
      fresh (List.reverse_perm _) (List.reverse_perm _)
    rw [rerun, runs]
    exact outcome
  obtain ⟨mirrors, pruned_nodes, pruned_edges⟩ :=
    (outcome {}).mirrors ⟨⟨fun _ _ => rfl, fun _ _ => rfl⟩, rfl, rfl⟩
  refine ⟨reachable, keyed, fresh, mirrors, pruned_nodes.trans (by decide),
    pruned_edges.trans (by decide), ((outcome refusing).retains fun removes => ?_).1⟩
  have hc := removes.1.1 ⟨⟨.classDef, "C"⟩, unordered⟩ (by decide)
  exact absurd hc (by decide)

end Sync

end LayerGraph
