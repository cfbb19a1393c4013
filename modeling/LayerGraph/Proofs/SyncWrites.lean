import LayerGraph.GraphStore.Sync

/-!
# The writes of a run in closed form

A run makes its writes one after another. What comes of them does not need their order to be told:
the items whose write lands are written, and the others are noted as failures. That holds of
everything that a graph can be copied into.

Main statements:
1. `length_landing_add`: each item lands or is noted as a failure.
2. `foldl_write`: writes one after another in closed form.
3. `runIn_eq`: a whole run in closed form.
-/

namespace LayerGraph

namespace Sync

variable {α σ : Type} {limits : SyncLimits} {faults : Faults} {run : String} {nodes : List Node}
  {edges : List Edge} {m : σ}

/-- The items whose write lands. -/
def landing (fault? : α → Option StoreFault) (xs : List α) : List α :=
  xs.filter fun x => (fault? x).isNone

/-- The failures of writes, in the order of the writes. -/
def failures (item : α → String) (fault? : α → Option StoreFault) (xs : List α) :
    List SyncFailure :=
  xs.filterMap fun x => (fault? x).map fun f => ⟨item x, f.message⟩

theorem mem_landing {fault? : α → Option StoreFault} {xs : List α} {x : α} :
    x ∈ landing fault? xs ↔ x ∈ xs ∧ fault? x = none := by
  rw [landing, List.mem_filter, Option.isNone_iff_eq_none]

theorem failures_perm (item : α → String) (fault? : α → Option StoreFault) {xs ys : List α}
    (h : xs.Perm ys) : (failures item fault? xs).Perm (failures item fault? ys) :=
  h.filterMap _

/-- Each item lands or is noted as a failure. -/
theorem length_landing_add (item : α → String) (fault? : α → Option StoreFault) (xs : List α) :
    (landing fault? xs).length + (failures item fault? xs).length = xs.length := by
  induction xs with
  | nil => rfl
  | cons x rest ih =>
    unfold landing failures at ih ⊢
    cases hx : fault? x with
    | none =>
      rw [List.filter_cons_of_pos (by rw [hx]; rfl), List.filterMap_cons_none (by rw [hx]; rfl),
        List.length_cons, List.length_cons, ← ih]
      omega
    | some f =>
      rw [List.filter_cons_of_neg (by rw [hx]; exact Bool.false_ne_true),
        List.filterMap_cons_some (by rw [hx]; rfl), List.length_cons, List.length_cons, ← ih]
      omega

theorem failures_eq_nil_iff {item : α → String} {fault? : α → Option StoreFault} {xs : List α} :
    failures item fault? xs = [] ↔ ∀ x ∈ xs, fault? x = none := by
  rw [failures, List.filterMap_eq_nil_iff]
  exact forall₂_congr fun x _ => Option.map_eq_none_iff

theorem landing_of_forall {fault? : α → Option StoreFault} {xs : List α}
    (h : ∀ x ∈ xs, fault? x = none) : landing fault? xs = xs := by
  rw [landing, List.filter_eq_self]
  intro x hx
  rw [h x hx]
  rfl

theorem foldl_write (item : α → String) (fault? : α → Option StoreFault) (put : α → σ → σ)
    (xs : List α) (p : Progress σ) :
    xs.foldl (fun p x => p.write (item x) (fault? x) (put x)) p =
      { stored := (landing fault? xs).foldl (fun m x => put x m) p.stored
        landed := p.landed + (landing fault? xs).length
        failed := p.failed ++ failures item fault? xs } := by
  induction xs generalizing p with
  | nil => simp [landing, failures]
  | cons x rest ih =>
    rw [List.foldl_cons, ih]
    unfold landing failures Progress.write
    cases hx : fault? x with
    | none =>
      rw [List.filter_cons_of_pos (by rw [hx]; rfl), List.filterMap_cons_none (by rw [hx]; rfl)]
      simp only [List.foldl_cons, List.length_cons, Progress.mk.injEq, true_and, and_true]
      omega
    | some f =>
      rw [List.filter_cons_of_neg (by rw [hx]; exact Bool.false_ne_true),
        List.filterMap_cons_some (by rw [hx]; rfl)]
      simp only [List.append_assoc, List.singleton_append]

/-- The report before anything is removed. -/
def reportOf (faults : Faults) (run : String) (nodes : List Node) (edges : List Edge) :
    SyncReport where
  run := run
  nodesSynced := (landing faults.node? nodes).length
  edgesSynced := (landing faults.edge? edges).length
  failedNodes := Sorted.sort (failures (·.key.text) faults.node? nodes)
  failedEdges := Sorted.sort (failures edgeItem faults.edge? edges)

variable [RowStore σ]

/-- What is stored after all writes, before anything is removed. -/
def written (faults : Faults) (run : String) (nodes : List Node) (edges : List Edge) (m : σ) : σ :=
  (landing faults.edge? edges).foldl (RowStore.putEdge · · run)
    ((landing faults.node? nodes).foldl (RowStore.putNode · · run) m)

theorem runIn_eq : runIn limits faults run nodes edges m =
    if limits.pruneStale && (reportOf faults run nodes edges).isComplete && faults.prune?.isNone then
      ({ reportOf faults run nodes edges with
          pruned := RowStore.pruneCount (written faults run nodes edges m) run },
        RowStore.prune (written faults run nodes edges m) run)
    else (reportOf faults run nodes edges, written faults run nodes edges m) := by
  have on_nodes := foldl_write (fun n : Node => n.key.text) faults.node?
    (fun n (m : σ) => RowStore.putNode m n run) nodes { stored := m }
  have on_edges := foldl_write edgeItem faults.edge?
    (fun e (m : σ) => RowStore.putEdge m e run) edges
    { stored := (landing faults.node? nodes).foldl (RowStore.putNode · · run) m }
  simp only [Nat.zero_add, List.nil_append] at on_nodes on_edges
  rw [runIn, writeNodes, on_nodes, writeEdges, on_edges]
  rfl

theorem isComplete_runIn : (runIn limits faults run nodes edges m).1.isComplete =
    (reportOf faults run nodes edges).isComplete := by
  rw [runIn_eq]
  split
  · rfl
  · rfl

end Sync

end LayerGraph
