import LayerGraph.Proofs.KeyText
import LayerGraph.Proofs.StoredRows

/-!
# Stored graphs as tables

The columns of a row tell which node or edge was written and by which run, and rows that are found by
the same key in a stored graph are found by the same texts in its tables. So a write does the same to
both.

Main statements:
1. `map_put`: rows with other columns, written by the same keys.
2. `tables_putNode`, `tables_putEdge`, `tables_prune`, `tables_pruneCount`: writes to the tables of a
   stored graph.
3. `columns_node_injective`, `columns_edge_injective`: no two rows have the same columns.
-/

namespace LayerGraph

namespace Rows

variable {ρ σ κ τ : Type} [DecidableEq κ] [DecidableEq τ] {key : ρ → κ} {key' : σ → τ} {f : ρ → σ}

/-- Rows whose columns identify them as their keys do are written alike. -/
theorem map_put (same : ∀ a b, key' (f a) = key' (f b) ↔ key a = key b) (rows : List ρ) (row : ρ) :
    (put key rows row).map f = put key' (rows.map f) (f row) := by
  have any_eq : (rows.map f).any (key' · = key' (f row)) = rows.any (key · = key row) := by
    rw [List.any_map]
    exact List.any_congr rfl fun r => decide_eq_decide.2 (same r row)
  unfold put
  rw [any_eq]
  split
  · rw [List.map_map, List.map_map]
    refine List.map_congr_left fun r _ => ?_
    show f (if key r = key row then row else r) = if key' (f r) = key' (f row) then f row else f r
    rw [apply_ite f]
    exact if_congr (same r row).symm rfl rfl
  · rw [List.map_append, List.map_singleton]

end Rows

theorem EdgeKind.name_injective {a b : EdgeKind} (h : a.name = b.name) : a = b := by
  revert h
  cases a <;> cases b <;> decide

theorem Node.key_columns_eq_iff {n n' : Node} {run run' : String} :
    (n.columns run).key = (n'.columns run').key ↔ n.key = n'.key :=
  ⟨NodeKey.text_injective, congrArg NodeKey.text⟩

theorem Edge.key_columns_eq_iff {e e' : Edge} {run run' : String} :
    (e.columns run).key = (e'.columns run').key ↔ e = e' := by
  refine ⟨fun h => ?_, by rintro rfl; rfl⟩
  obtain ⟨hsource, htarget, hkind⟩ := EdgeTexts.mk.inj h
  obtain ⟨source, target, kind⟩ := e
  obtain ⟨source', target', kind'⟩ := e'
  obtain rfl := NodeKey.text_injective hsource
  obtain rfl := NodeKey.text_injective htarget
  obtain rfl := EdgeKind.name_injective hkind
  rfl

theorem Node.columns_injective (run : String) : Function.Injective (Node.columns · run) := by
  intro n n' h
  obtain ⟨key, order⟩ := n
  obtain ⟨key', order'⟩ := n'
  obtain rfl := NodeKey.text_injective (congrArg NodeColumns.key h)
  obtain rfl : order = order' := congrArg NodeColumns.order h
  rfl

namespace StoredGraph

variable {m : StoredGraph}

theorem columns_node_injective :
    Function.Injective fun r : NodeRow => r.node.columns r.run := by
  intro r r' h
  obtain ⟨n, run⟩ := r
  obtain ⟨n', run'⟩ := r'
  obtain rfl : run = run' := congrArg NodeColumns.run h
  obtain rfl := Node.columns_injective run h
  rfl

theorem columns_edge_injective :
    Function.Injective fun r : EdgeRow => r.edge.columns r.run := by
  intro r r' h
  obtain ⟨e, run⟩ := r
  obtain ⟨e', run'⟩ := r'
  obtain rfl : run = run' := congrArg EdgeColumns.run h
  obtain rfl := Edge.key_columns_eq_iff.1 (congrArg EdgeColumns.key h)
  rfl

theorem tables_putNode (n : Node) (run : String) :
    (m.putNode n run).tables = m.tables.putNode n run :=
  congrArg (Tables.mk · _) (Rows.map_put (fun _ _ => Node.key_columns_eq_iff) m.nodes ⟨n, run⟩)

theorem tables_putEdge (e : Edge) (run : String) :
    (m.putEdge e run).tables = m.tables.putEdge e run :=
  congrArg (Tables.mk _) (Rows.map_put (fun _ _ => Edge.key_columns_eq_iff) m.edges ⟨e, run⟩)

theorem tables_prune (run : String) : (m.prune run).tables = m.tables.prune run := by
  unfold prune Tables.prune tables
  rw [List.filter_map, List.filter_map]
  rfl

theorem tables_pruneCount (run : String) : m.tables.pruneCount run = m.pruneCount run := by
  unfold pruneCount Tables.pruneCount tables
  rw [List.countP_map, List.countP_map]
  rfl

/-! ## What tables hold -/

theorem contains_tables (k : NodeKey) : m.tables.contains k.text = m.contains k := by
  unfold Tables.contains contains tables
  rw [List.any_map]
  refine List.any_congr rfl fun r => decide_eq_decide.2 ?_
  exact ⟨NodeKey.text_injective, congrArg NodeKey.text⟩

theorem mem_edges_tables {r : EdgeColumns} :
    r ∈ m.tables.edges ↔ ∃ s ∈ m.edges, s.edge.columns s.run = r :=
  List.mem_map

end StoredGraph

end LayerGraph
