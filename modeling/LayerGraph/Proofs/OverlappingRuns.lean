import LayerGraph.Proofs.CopiedGraph

/-!
# Runs that overlap

Two runs may write to one store at the same time, their calls in any order that keeps the calls of
each. A run removes the rows of all other runs, newer ones included, and it does not know which rows
another run is still writing. So of the run that removes its rows last, only those are left that it
wrote after the other one had removed.

Main statements:
1. `Interleaved.split`: what two merged lists of calls look like around a call of one of them.
2. `mirrors_after_prunes`: what a run leaves that goes on after another one has removed.
3. `overlapping_runs_leave`: what two overlapping runs leave, and when that is the whole graph.
-/

namespace LayerGraph

/-! ## Merged lists -/

/-- The third list holds the elements of the other two, those of each in their order. -/
inductive Interleaved {α : Type} : List α → List α → List α → Prop
  | nil : Interleaved [] [] []
  | left {x : α} {xs ys zs : List α} : Interleaved xs ys zs → Interleaved (x :: xs) ys (x :: zs)
  | right {y : α} {xs ys zs : List α} : Interleaved xs ys zs → Interleaved xs (y :: ys) (y :: zs)

namespace Interleaved

variable {α : Type} {x : α} {xs xs' ys zs : List α}

theorem symm (h : Interleaved xs ys zs) : Interleaved ys xs zs := by
  induction h with
  | nil => exact .nil
  | left _ ih => exact .right ih
  | right _ ih => exact .left ih

theorem mem_iff (h : Interleaved xs ys zs) : x ∈ zs ↔ x ∈ xs ∨ x ∈ ys := by
  induction h with
  | nil => simp
  | left _ ih => rw [List.mem_cons, List.mem_cons, ih, or_assoc]
  | right _ ih => rw [List.mem_cons, List.mem_cons, ih, or_left_comm]

theorem eq_of_nil_left (h : Interleaved [] ys zs) : zs = ys := by
  induction ys generalizing zs with
  | nil => cases h; rfl
  | cons y ys ih =>
    cases h with
    | right h => rw [ih h]

/-- Around an element of the first list, the second one falls into what comes before it and what
comes after it. -/
theorem split (h : Interleaved (xs ++ x :: xs') ys zs) : ∃ before after front back,
    ys = before ++ after ∧ zs = front ++ x :: back ∧ Interleaved xs before front ∧
      Interleaved xs' after back := by
  generalize hall : xs ++ x :: xs' = all at h
  induction h generalizing xs with
  | nil => exact absurd hall (by simp)
  | @left y all ys zs h ih =>
    cases xs with
    | nil =>
      obtain ⟨rfl, rfl⟩ := List.cons.inj hall
      exact ⟨[], ys, [], zs, rfl, rfl, .nil, h⟩
    | cons z xs =>
      obtain ⟨rfl, hrest⟩ := List.cons.inj hall
      obtain ⟨before, after, front, back, rfl, rfl, hfront, hback⟩ := ih hrest
      exact ⟨before, after, z :: front, back, rfl, rfl, hfront.left, hback⟩
  | @right y _ ys zs h ih =>
    obtain ⟨before, after, front, back, rfl, rfl, hfront, hback⟩ := ih hall
    exact ⟨y :: before, after, y :: front, back, rfl, rfl, hfront.right, hback⟩

end Interleaved

/-! ## Writes of runs -/

namespace StoredGraph

/-- The run that writes. -/
def Write.run : Write → String
  | node _ run => run
  | edge _ run => run
  | prune run => run

variable {m : StoredGraph}

theorem keyed_foldl_after_of_keyed (h : m.Keyed) (ws : List Write) : (ws.foldl after m).Keyed := by
  induction ws generalizing m with
  | nil => exact h
  | cons w rest ih => exact ih (h.after w)

end StoredGraph

namespace Sync

open StoredGraph

variable {run early late : String} {g h : Graph} {m : StoredGraph} {nodes : List Node}
  {edges : List Edge} {ws xs ys zs : List Write}

/-- The writes of nodes and then of edges. -/
def puts (run : String) (nodes : List Node) (edges : List Edge) : List Write :=
  nodes.map (.node · run) ++ edges.map (.edge · run)

/-- The writes that a run makes of a graph when each of them succeeds: the nodes and then the edges,
both in any order, and then the removal of what other runs wrote. -/
def Issues (run : String) (g : Graph) (ws : List Write) : Prop :=
  ∃ nodes edges, nodes.Perm g.nodes ∧ edges.Perm g.edges ∧
    ws = puts run nodes edges ++ [.prune run]

theorem issues_writes (run : String) (g : Graph) : Issues run g (writes run g) :=
  ⟨g.nodes, g.sortedEdges, List.Perm.refl _, Sorted.perm_sort _, rfl⟩

theorem foldl_puts (run : String) (nodes : List Node) (edges : List Edge) (m : StoredGraph) :
    (puts run nodes edges).foldl after m =
      { nodes := (nodes.map (⟨·, run⟩)).foldl (Rows.put fun r => r.node.key) m.nodes
        edges := (edges.map (⟨·, run⟩)).foldl (Rows.put EdgeRow.edge) m.edges } := by
  rw [puts, List.foldl_append, List.foldl_map, List.foldl_map]
  show edges.foldl (fun m e => m.putEdge e run) (nodes.foldl (fun m n => m.putNode n run) m) = _
  rw [foldl_putNode, foldl_putEdge]

/-- A run without faults makes these writes. -/
theorem runIn_eq_foldl_after (run : String) (nodes : List Node) (edges : List Edge)
    (m : StoredGraph) : (runIn {} {} run nodes edges m).2 =
      (puts run nodes edges ++ [Write.prune run]).foldl after m := by
  have complete : (reportOf {} run nodes edges).isComplete = true := by
    have nothing (α : Type) (item : α → String) (xs : List α) :
        failures item (fun _ => none) xs = [] := failures_eq_nil_iff.2 fun _ _ => rfl
    simp [SyncReport.isComplete, reportOf, nothing, Sorted.sort]
  have nodes_land : landing (Faults.node? {}) nodes = nodes := landing_of_forall fun _ _ => rfl
  have edges_land : landing (Faults.edge? {}) edges = edges := landing_of_forall fun _ _ => rfl
  rw [runIn_eq, complete, List.foldl_append, written, nodes_land, edges_land, puts,
    List.foldl_append, List.foldl_map, List.foldl_map]
  rfl

theorem mem_puts {w : Write} : w ∈ puts run nodes edges ↔
    (∃ n ∈ nodes, w = .node n run) ∨ ∃ e ∈ edges, w = .edge e run := by
  simp [puts, eq_comm]

theorem run_of_mem_puts {w : Write} (hw : w ∈ puts run nodes edges) : w.run = run := by
  rcases mem_puts.1 hw with ⟨n, -, rfl⟩ | ⟨e, -, rfl⟩
  · rfl
  · rfl

theorem nodup_puts (hnodes : nodes.Nodup) (hedges : edges.Nodup) :
    (puts run nodes edges).Nodup := by
  refine List.nodup_append.2 ⟨hnodes.map fun a b heq => ?_, hedges.map fun a b heq => ?_, ?_⟩
  · exact (Write.node.inj heq).1
  · exact (Write.edge.inj heq).1
  · intro v hv w hw heq
    obtain ⟨n, -, rfl⟩ := List.mem_map.1 hv
    obtain ⟨e, -, rfl⟩ := List.mem_map.1 hw
    cases heq

theorem mem_puts_node {n : Node} : Write.node n run ∈ puts run nodes edges ↔ n ∈ nodes := by
  simp [puts]

theorem mem_puts_edge {e : Edge} : Write.edge e run ∈ puts run nodes edges ↔ e ∈ edges := by
  simp [puts]

/-- What comes last of such writes are the last nodes and the last edges. -/
theorem exists_puts_of_append {before after : List Write}
    (hsplit : puts run nodes edges = before ++ after) : ∃ ns es,
    after = puts run ns es ∧ ns.Sublist nodes ∧ es.Sublist edges := by
  rcases List.append_eq_append_iff.1 hsplit with ⟨mid, rfl, hedges⟩ | ⟨mid, hnodes, rfl⟩
  · obtain ⟨skipped, es, rfl, -, rfl⟩ := List.map_eq_append_iff.1 hedges
    exact ⟨[], es, rfl, List.nil_sublist _, List.sublist_append_right _ _⟩
  · obtain ⟨skipped, ns, rfl, -, rfl⟩ := List.map_eq_append_iff.1 hnodes
    exact ⟨ns, edges, rfl, List.sublist_append_right _ _, List.Sublist.refl _⟩

/-! ## A run that goes on after another one has removed -/

theorem Mirrors.mem_nodes (hmirrors : Mirrors run g m) {r : NodeRow} :
    r ∈ m.nodes ↔ r.run = run ∧ r.node ∈ g.nodes := by
  rw [hmirrors.nodes.mem_iff, List.mem_map]
  constructor
  · rintro ⟨n, hn, rfl⟩
    exact ⟨rfl, hn⟩
  · rintro ⟨rfl, hr⟩
    exact ⟨r.node, hr, rfl⟩

theorem Mirrors.mem_edges (hmirrors : Mirrors run g m) {r : EdgeRow} :
    r ∈ m.edges ↔ r.run = run ∧ r.edge ∈ g.edges := by
  rw [hmirrors.edges.mem_iff, List.mem_map]
  constructor
  · rintro ⟨e, he, rfl⟩
    exact ⟨rfl, he⟩
  · rintro ⟨rfl, hr⟩
    exact ⟨r.edge, hr, rfl⟩

/-- When one run removes after another one has, only what it wrote in between is left: its earlier
rows went when the other one removed, and the rows of the other one go now. -/
theorem mirrors_after_prunes (hm : m.Keyed) (ne : early ≠ late)
    (distinct_nodes : (nodes.map Node.key).Nodup) (distinct_edges : edges.Nodup) :
    Mirrors late { nodes, edges }
      ((Write.prune early :: (puts late nodes edges ++ [Write.prune late])).foldl after m) := by
  have keyed : (m.prune early).Keyed := hm.after (.prune early)
  have others {stamp : String} (hstamp : decide (stamp = early) = true) : stamp ≠ late := by
    rw [of_decide_eq_true hstamp]
    exact ne
  have new_keys : (nodes.map (NodeRow.mk · late)).map (·.node.key) = nodes.map Node.key := by
    rw [List.map_map]
    rfl
  have new_edges : (edges.map (EdgeRow.mk · late)).map EdgeRow.edge = edges := by
    rw [List.map_map]
    exact List.map_id _
  rw [List.foldl_cons, List.foldl_append, foldl_puts]
  constructor
  · refine Rows.filter_foldl_put keyed.nodes ?_ ?_ fun r hr => ?_
    · rwa [new_keys]
    · exact List.forall_mem_map.2 fun _ _ => rfl
    · exact others (List.mem_filter.1 hr).2
  · refine Rows.filter_foldl_put keyed.edges ?_ ?_ fun r hr => ?_
    · rwa [new_edges]
    · exact List.forall_mem_map.2 fun _ _ => rfl
    · exact others (List.mem_filter.1 hr).2

/-- What the run `late` leaves, which removes last: just the rows of the calls `back` that it made
after the other run had removed, each once. They are the whole of its graph if and only if it made
none of the calls `front` before that. -/
structure Leaves (early late : String) (g : Graph) (front back : List Write) (left : StoredGraph) :
    Prop where
  keyed : left.Keyed
  nodes : ∀ r, r ∈ left.nodes ↔ r.run = late ∧ Write.node r.node late ∈ back
  edges : ∀ r, r ∈ left.edges ↔ r.run = late ∧ Write.edge r.edge late ∈ back
  complete : Mirrors late g left ↔ ∀ w ∈ front, w.run = early

theorem leaves_of_split {before front back : List Write} (hg : g.WellFormed) (ne : early ≠ late)
    (hm : m.Keyed) (hxs : ∀ x ∈ xs, x.run = early) (hnodes : nodes.Perm g.nodes)
    (hedges : edges.Perm g.edges) (hsplit : puts late nodes edges = before ++ back)
    (hfront : Interleaved xs before front) :
    Leaves early late g front back
      ((front ++ Write.prune early :: (back ++ [Write.prune late])).foldl after m) := by
  have distinct_nodes : (nodes.map Node.key).Nodup :=
    (hnodes.map Node.key).nodup_iff.2 hg.keys_nodup
  have distinct_edges : edges.Nodup := hedges.nodup_iff.2 hg.edges_nodup
  have keyed : (front.foldl after m).Keyed := keyed_foldl_after_of_keyed hm front
  have once : (before ++ back).Nodup := hsplit ▸ nodup_puts distinct_nodes.of_map distinct_edges
  obtain ⟨ns, es, rfl, hns, hes⟩ := exists_puts_of_append hsplit
  have left := mirrors_after_prunes keyed ne (distinct_nodes.sublist (hns.map _))
    (distinct_edges.sublist hes)
  rw [← List.foldl_append] at left
  refine ⟨keyed_foldl_after_of_keyed hm _, fun r => ?_, fun r => ?_, fun whole w hw => ?_,
    fun others => ?_⟩
  · rw [left.mem_nodes, mem_puts_node]
  · rw [left.mem_edges, mem_puts_edge]
  · -- a row that was written before would have to be written twice
    rcases hfront.mem_iff.1 hw with hw | hw
    · exact hxs w hw
    · have hmem : w ∈ puts late nodes edges := hsplit ▸ List.mem_append_left _ hw
      refine absurd rfl ((List.nodup_append.1 once).2.2 w hw w ?_)
      rcases mem_puts.1 hmem with ⟨n, hn, rfl⟩ | ⟨e, he, rfl⟩
      · have row := (whole.mem_nodes (r := ⟨n, late⟩)).2 ⟨rfl, hnodes.mem_iff.1 hn⟩
        exact mem_puts_node.2 (left.mem_nodes.1 row).2
      · have row := (whole.mem_edges (r := ⟨e, late⟩)).2 ⟨rfl, hedges.mem_iff.1 he⟩
        exact mem_puts_edge.2 (left.mem_edges.1 row).2
  · have none_before : before = [] := by
      refine List.eq_nil_iff_forall_not_mem.2 fun w hw => ne ?_
      rw [← others w (hfront.mem_iff.2 (.inr hw))]
      exact run_of_mem_puts (hsplit ▸ List.mem_append_left _ hw)
    rw [none_before, List.nil_append] at hsplit
    rw [← hsplit, List.foldl_append]
    have all := mirrors_after_prunes keyed ne distinct_nodes distinct_edges
    exact ⟨all.nodes.trans (hnodes.map _), all.edges.trans (hedges.map _)⟩

/-! ## Two runs -/

/-- Two runs write graphs that have been built to one store, whatever it holds, and their calls come
in any order that keeps those of each. The run that removes last leaves just what it wrote after the
other one had removed, so its graph is there as a whole if and only if it began after that. -/
theorem overlapping_runs_leave {a b : String} (hg : Build.IsBuilt g) (hh : Build.IsBuilt h)
    (ne : a ≠ b) (hm : m.Keyed) (hxs : Issues a g xs) (hys : Issues b h ys)
    (hzs : Interleaved xs ys zs) : ∃ front back,
      (zs = front ++ .prune a :: (back ++ [.prune b]) ∧
        Leaves a b h front back (zs.foldl after m)) ∨
      (zs = front ++ .prune b :: (back ++ [.prune a]) ∧
        Leaves b a g front back (zs.foldl after m)) := by
  obtain ⟨nodes, edges, hnodes, hedges, rfl⟩ := hxs
  obtain ⟨nodes', edges', hnodes', hedges', rfl⟩ := hys
  obtain ⟨before, after, front, back, hsplit, rfl, hfront, hback⟩ := hzs.split
  obtain rfl := hback.eq_of_nil_left
  cases List.eq_nil_or_concat back with
  | inl none =>
    subst none
    rw [List.append_nil] at hsplit
    subst hsplit
    obtain ⟨before, after, front, back, hsplit, rfl, hfront, hback⟩ := hfront.symm.split
    obtain rfl := hback.eq_of_nil_left
    refine ⟨front, back, .inr ⟨by simp, ?_⟩⟩
    have leaves := leaves_of_split hg.wellFormed ne.symm hm (fun w => run_of_mem_puts) hnodes hedges
      hsplit hfront
    simpa using leaves
  | inr more =>
    obtain ⟨back, last, rfl⟩ := more
    rw [List.concat_eq_append] at hsplit ⊢
    rw [← List.append_assoc] at hsplit
    obtain ⟨hputs, hlast⟩ := List.append_inj' hsplit rfl
    obtain rfl := (List.cons.inj hlast).1
    exact ⟨front, back, .inl ⟨rfl, leaves_of_split hh.wellFormed ne hm (fun w => run_of_mem_puts)
      hnodes' hedges' hputs hfront⟩⟩

/-- The graph of one table. -/
def tableGraph : Graph where
  nodes := [⟨⟨.table, "T"⟩, 0⟩]
  edges := []

theorem isBuilt_tableGraph : Build.IsBuilt tableGraph := by
  have declared : Build.declarations [{ kind := .table, name := "T" }] =
      [{ key := ⟨.table, "T"⟩ }] := by cbv
  exact Build.isBuilt_of_declarations declared (fun _ => some 0) (by rfl)

/-- What a run writes for one table. -/
def tableCalls (run : String) : List Write :=
  [.node ⟨⟨.table, "T"⟩, 0⟩ run, .prune run]

/-- The calls of two runs for one table, in turn. -/
def inTurn : List Write :=
  [.node ⟨⟨.table, "T"⟩, 0⟩ "a", .node ⟨⟨.table, "T"⟩, 0⟩ "b", .prune "a", .prune "b"]

theorem issues_tableCalls (run : String) : Issues run tableGraph (tableCalls run) :=
  ⟨tableGraph.nodes, [], List.Perm.refl _, List.Perm.refl _, rfl⟩

theorem interleaved_inTurn : Interleaved (tableCalls "a") (tableCalls "b") inTurn :=
  .left (.right (.left (.right .nil)))

theorem overlapping_runs_leave_inTurn : ∃ front back,
    (inTurn = front ++ .prune "a" :: (back ++ [.prune "b"]) ∧
      Leaves "a" "b" tableGraph front back (inTurn.foldl after {})) ∨
    (inTurn = front ++ .prune "b" :: (back ++ [.prune "a"]) ∧
      Leaves "b" "a" tableGraph front back (inTurn.foldl after {})) :=
  overlapping_runs_leave isBuilt_tableGraph isBuilt_tableGraph (by decide) (keyed_foldl_after [])
    (issues_tableCalls "a") (issues_tableCalls "b") interleaved_inTurn

/-- The run `b` removes last and reports that it wrote the table, and the store is empty. -/
theorem inTurn_loses_row : Build.IsBuilt tableGraph ∧
    Issues "a" tableGraph (tableCalls "a") ∧ Issues "b" tableGraph (tableCalls "b") ∧
    Interleaved (tableCalls "a") (tableCalls "b") inTurn ∧ inTurn.getLast? = some (.prune "b") ∧
    (reportOf {} "b" tableGraph.nodes tableGraph.edges).nodesSynced = 1 ∧
    inTurn.foldl after {} = {} ∧ ¬ Mirrors "b" tableGraph (inTurn.foldl after {}) := by
  have empty : inTurn.foldl after {} = {} := by decide
  refine ⟨isBuilt_tableGraph, issues_tableCalls "a", issues_tableCalls "b", interleaved_inTurn,
    rfl, rfl, empty, fun mirrors => ?_⟩
  rw [empty] at mirrors
  exact absurd mirrors.nodes.length_eq (by decide)

end Sync

end LayerGraph
