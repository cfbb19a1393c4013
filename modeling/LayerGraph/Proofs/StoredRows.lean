import LayerGraph.StoredGraph
import Mathlib.Data.List.Nodup

/-!
# Rows that are written by key

Both tables of a stored graph are written in the same way: a row goes over the one with its key, or
behind all rows. So after rows with different keys have been written, in whatever order, a table
holds these rows and the old ones whose keys were not among them. If no old row carries the stamp of
the new ones, removing all rows without this stamp leaves just the new ones.

Main statements:
1. `mem_foldl_put`, `nodup_foldl_put`: what a table holds after rows have been written, each key once.
2. `filter_foldl_put`, `countP_foldl_put`: what removing the other rows leaves, and how many it
   removes.
3. `Keyed.after`: no write to a stored graph leads to two rows with one key.
-/

namespace LayerGraph

namespace Rows

variable {ρ κ : Type} [DecidableEq κ] {key : ρ → κ} {rows ws : List ρ} {row r : ρ}

theorem any_key_iff : rows.any (key · = key row) = true ↔ key row ∈ rows.map key := by
  rw [List.any_eq_true, List.mem_map]
  constructor
  · rintro ⟨r, hr, heq⟩
    exact ⟨r, hr, of_decide_eq_true heq⟩
  · rintro ⟨r, hr, heq⟩
    exact ⟨r, hr, decide_eq_true heq⟩

theorem mem_put : r ∈ put key rows row ↔ r = row ∨ (r ∈ rows ∧ key r ≠ key row) := by
  unfold put
  split
  · next hany =>
    obtain ⟨old, hold, hkey⟩ := List.mem_map.1 (any_key_iff.1 hany)
    rw [List.mem_map]
    constructor
    · rintro ⟨s, hs, rfl⟩
      split
      · exact .inl rfl
      · next hne => exact .inr ⟨hs, hne⟩
    · rintro (rfl | ⟨hr, hne⟩)
      · exact ⟨old, hold, if_pos hkey⟩
      · exact ⟨r, hr, if_neg hne⟩
  · next hany =>
    -- no row has this key, so all rows that are there have other keys
    rw [List.mem_append, List.mem_singleton, or_comm]
    refine or_congr_right ⟨fun hr => ⟨hr, fun heq => hany ?_⟩, fun h => h.1⟩
    exact any_key_iff.2 (heq ▸ List.mem_map_of_mem hr)

theorem nodup_put (h : (rows.map key).Nodup) : ((put key rows row).map key).Nodup := by
  unfold put
  split
  · have same : (rows.map fun r => if key r = key row then row else r).map key = rows.map key := by
      rw [List.map_map]
      refine List.map_congr_left fun r _ => ?_
      show key (if key r = key row then row else r) = key r
      split
      · next heq => exact heq.symm
      · rfl
    rw [same]
    exact h
  · next hany =>
    rw [List.map_append, List.map_singleton, ← List.concat_eq_append]
    exact h.concat fun hmem => hany (any_key_iff.2 hmem)

theorem nodup_foldl_put (h : (rows.map key).Nodup) (ws : List ρ) :
    ((ws.foldl (put key) rows).map key).Nodup := by
  induction ws generalizing rows with
  | nil => exact h
  | cons w rest ih => exact ih (nodup_put h)

theorem mem_foldl_put (distinct : (ws.map key).Nodup) :
    r ∈ ws.foldl (put key) rows ↔ r ∈ ws ∨ (r ∈ rows ∧ key r ∉ ws.map key) := by
  induction ws generalizing rows with
  | nil => simp
  | cons w rest ih =>
    obtain ⟨hnew, distinct⟩ := List.nodup_cons.1 distinct
    rw [List.foldl_cons, ih distinct, mem_put, List.mem_cons, List.map_cons, List.mem_cons]
    constructor
    · rintro (hr | ⟨rfl | ⟨hr, hne⟩, hnot⟩)
      · exact .inl (.inr hr)
      · exact .inl (.inl rfl)
      · exact .inr ⟨hr, fun hmem => hmem.elim hne hnot⟩
    · rintro ((rfl | hr) | ⟨hr, hnot⟩)
      · exact .inr ⟨.inl rfl, hnew⟩
      · exact .inl hr
      · exact .inr ⟨.inr ⟨hr, fun heq => hnot (.inl heq)⟩, fun hmem => hnot (.inr hmem)⟩

/-- In which order rows with different keys are written shows only in the order of the table. -/
theorem foldl_put_perm (h : (rows.map key).Nodup) (distinct : (ws.map key).Nodup) :
    (ws.foldl (put key) rows).Perm (ws ++ rows.filter (key · ∉ ws.map key)) := by
  refine (List.perm_ext_iff_of_nodup (nodup_foldl_put h ws).of_map ?_).2 fun r => ?_
  · rw [List.nodup_append]
    refine ⟨distinct.of_map, h.of_map.filter _, ?_⟩
    intro w hw r hr heq
    exact of_decide_eq_true (List.mem_filter.1 hr).2 (heq ▸ List.mem_map_of_mem hw)
  · rw [mem_foldl_put distinct, List.mem_append, List.mem_filter, decide_eq_true_iff]

/-- A row stays as it is when no row with its key is written. -/
theorem mem_foldl_put_of_ne (distinct : (ws.map key).Nodup) (hr : r ∈ rows)
    (hne : ∀ w ∈ ws, key w ≠ key r) : r ∈ ws.foldl (put key) rows := by
  refine (mem_foldl_put distinct).2 (.inr ⟨hr, fun hmem => ?_⟩)
  obtain ⟨w, hw, heq⟩ := List.mem_map.1 hmem
  exact hne w hw heq

/-- Every key that was there is still there. -/
theorem exists_of_foldl_put (distinct : (ws.map key).Nodup) (hr : r ∈ rows) :
    ∃ r' ∈ ws.foldl (put key) rows, key r' = key r := by
  by_cases hkey : key r ∈ ws.map key
  · obtain ⟨w, hw, heq⟩ := List.mem_map.1 hkey
    exact ⟨w, (mem_foldl_put distinct).2 (.inl hw), heq⟩
  · exact ⟨r, (mem_foldl_put distinct).2 (.inr ⟨hr, hkey⟩), rfl⟩

section Stamped

variable {stamp : ρ → String} {run : String} (h : (rows.map key).Nodup)
  (distinct : (ws.map key).Nodup) (new : ∀ w ∈ ws, stamp w = run) (old : ∀ r ∈ rows, stamp r ≠ run)

include h distinct new old

/-- Of all rows, those that were written carry the stamp. -/
theorem filter_foldl_put : ((ws.foldl (put key) rows).filter (stamp · = run)).Perm ws := by
  refine ((foldl_put_perm h distinct).filter _).trans ?_
  have none_left : (rows.filter (key · ∉ ws.map key)).filter (stamp · = run) = [] := by
    rw [List.filter_eq_nil_iff]
    intro r hr
    rw [decide_eq_true_iff]
    exact old r (List.mem_filter.1 hr).1
  rw [List.filter_append, none_left, List.append_nil, List.filter_eq_self.2]
  exact fun w hw => decide_eq_true (new w hw)

/-- The rows without the stamp are the old ones whose keys were not written. -/
theorem countP_foldl_put : (ws.foldl (put key) rows).countP (stamp · ≠ run) =
    rows.countP (key · ∉ ws.map key) := by
  have none_new : ws.countP (stamp · ≠ run) = 0 := by
    rw [List.countP_eq_zero]
    intro w hw
    rw [decide_eq_true_iff, not_not]
    exact new w hw
  have all_old : (rows.filter (key · ∉ ws.map key)).countP (stamp · ≠ run) =
      (rows.filter (key · ∉ ws.map key)).length := by
    rw [List.countP_eq_length]
    intro r hr
    rw [decide_eq_true_iff]
    exact old r (List.mem_filter.1 hr).1
  rw [(foldl_put_perm h distinct).countP_eq, List.countP_append, none_new, all_old, Nat.zero_add,
    ← List.countP_eq_length_filter]

end Stamped

end Rows

namespace StoredGraph

open Rows

variable {m : StoredGraph}

theorem foldl_putNode (run : String) (xs : List Node) (m : StoredGraph) :
    xs.foldl (fun m n => m.putNode n run) m =
      { m with nodes := (xs.map (⟨·, run⟩)).foldl (put fun r => r.node.key) m.nodes } := by
  induction xs generalizing m with
  | nil => rfl
  | cons n rest ih =>
    rw [List.foldl_cons, ih]
    rfl

theorem foldl_putEdge (run : String) (xs : List Edge) (m : StoredGraph) :
    xs.foldl (fun m e => m.putEdge e run) m =
      { m with edges := (xs.map (⟨·, run⟩)).foldl (put EdgeRow.edge) m.edges } := by
  induction xs generalizing m with
  | nil => rfl
  | cons e rest ih =>
    rw [List.foldl_cons, ih]
    rfl

/-- No two rows have the same key. -/
structure Keyed (m : StoredGraph) : Prop where
  nodes : m.keys.Nodup
  edges : m.edgeList.Nodup

theorem Keyed.after (h : m.Keyed) (w : Write) : (m.after w).Keyed := by
  cases w with
  | node n run => exact ⟨nodup_put h.nodes, h.edges⟩
  | edge e run => exact ⟨h.nodes, nodup_put h.edges⟩
  | prune run =>
    exact ⟨h.nodes.sublist (List.filter_sublist.map _), h.edges.sublist (List.filter_sublist.map _)⟩

/-- Whatever was written to a stored graph, it is keyed. -/
theorem keyed_foldl_after (ws : List Write) : (ws.foldl after {}).Keyed := by
  have keeps : ∀ (ws : List Write) (m : StoredGraph), m.Keyed → (ws.foldl after m).Keyed := by
    intro ws
    induction ws with
    | nil => exact fun _ h => h
    | cons w rest ih => exact fun m h => ih _ (h.after w)
  exact keeps ws {} ⟨List.nodup_nil, List.nodup_nil⟩

theorem contains_iff {k : NodeKey} : m.contains k = true ↔ k ∈ m.keys := by
  simp [contains, keys]

theorem mem_byText {k : NodeKey} {ks : List NodeKey} : k ∈ byText ks ↔ k ∈ ks :=
  (List.mergeSort_perm ks _).mem_iff

theorem nodup_byText {ks : List NodeKey} (h : ks.Nodup) : (byText ks).Nodup :=
  (List.mergeSort_perm ks _).nodup_iff.2 h

end StoredGraph

end LayerGraph
