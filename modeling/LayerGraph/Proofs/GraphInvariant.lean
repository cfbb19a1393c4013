import LayerGraph.Build
import Mathlib.Logic.Relation

/-!
# Graphs that steps lead to

Only adding nodes, adding edges and giving orders ever change a graph. A graph that such steps lead
to from the empty one is well formed: each key has one node and each edge is there once, the ends of
an edge are nodes, and no edge runs from a node to itself.

Main statements:
1. `WellFormed.after`, `Reachable.wellFormed`: a step keeps a graph well formed, so a run does.
2. `reachable_ofRecords`: building from records is such a run.
3. `mem_successors`, `mem_sortedKeys`: what the sorted lists of a graph hold.
-/

namespace LayerGraph

namespace Graph

/-! ## Reachable graphs -/

/-- The graphs that steps lead to from the empty one. -/
inductive Reachable : Graph → Prop
  | empty : Reachable Graph.empty
  | step {g : Graph} (s : Step) : Reachable g → Reachable (g.after s)

/-- What every step keeps. -/
structure WellFormed (g : Graph) : Prop where
  keys_nodup : g.keys.Nodup
  edges_nodup : g.edges.Nodup
  source_mem : ∀ e ∈ g.edges, e.source ∈ g.keys
  target_mem : ∀ e ∈ g.edges, e.target ∈ g.keys
  source_ne_target : ∀ e ∈ g.edges, e.source ≠ e.target

/-- At least one edge runs from `u` to `v`. -/
def Depends (g : Graph) (u v : NodeKey) : Prop :=
  ∃ e ∈ g.edges, e.source = u ∧ e.target = v

instance (g : Graph) (u v : NodeKey) : Decidable (g.Depends u v) :=
  inferInstanceAs (Decidable (∃ e ∈ g.edges, e.source = u ∧ e.target = v))

variable {g : Graph}

theorem contains_iff {k : NodeKey} : g.contains k = true ↔ k ∈ g.keys := by
  simp [contains, keys]

theorem WellFormed.addNode (h : g.WellFormed) (k : NodeKey) : (g.addNode k).2.WellFormed := by
  rw [Graph.addNode]
  split
  · exact h
  · rename_i absent
    rw [contains_iff] at absent
    have keys_eq : ({ g with nodes := g.nodes ++ [{ key := k }] } : Graph).keys = g.keys ++ [k] := by
      simp [keys]
    have mem_of_mem : ∀ j ∈ g.keys,
        j ∈ ({ g with nodes := g.nodes ++ [{ key := k }] } : Graph).keys := by
      intro j hj
      rw [keys_eq]
      exact List.mem_append_left [k] hj
    refine ⟨?_, h.edges_nodup, fun e he => mem_of_mem _ (h.source_mem e he),
      fun e he => mem_of_mem _ (h.target_mem e he), h.source_ne_target⟩
    rw [keys_eq, List.nodup_append]
    refine ⟨h.keys_nodup, List.pairwise_singleton _ k, ?_⟩
    intro a ha b hb
    obtain rfl := List.mem_singleton.1 hb
    rintro rfl
    exact absent ha

theorem WellFormed.addEdge (h : g.WellFormed) (e : Edge) : (g.addEdge e).2.WellFormed := by
  rw [Graph.addEdge]
  split
  · exact h
  split
  · exact h
  split
  · exact h
  · rename_i ends distinct absent
    simp only [Bool.not_eq_true', Bool.not_eq_false, Bool.and_eq_true, contains_iff] at ends
    have on_edges : ∀ {P : Edge → Prop}, (∀ d ∈ g.edges, P d) → P e → ∀ d ∈ g.edges ++ [e], P d := by
      intro P old new d hd
      rcases List.mem_append.1 hd with hd | hd
      · exact old d hd
      · exact List.mem_singleton.1 hd ▸ new
    refine ⟨h.keys_nodup, ?_, on_edges h.source_mem ends.1, on_edges h.target_mem ends.2,
      on_edges h.source_ne_target distinct⟩
    show (g.edges ++ [e]).Nodup
    rw [List.nodup_append]
    refine ⟨h.edges_nodup, List.pairwise_singleton _ e, ?_⟩
    intro a ha b hb
    obtain rfl := List.mem_singleton.1 hb
    rintro rfl
    exact absent ha

@[simp] theorem keys_withOrders (order? : NodeKey → Option Int) :
    (g.withOrders order?).keys = g.keys := by
  simp [withOrders, keys]

@[simp] theorem edges_withOrders (order? : NodeKey → Option Int) :
    (g.withOrders order?).edges = g.edges := rfl

theorem WellFormed.withOrders (h : g.WellFormed) (order? : NodeKey → Option Int) :
    (g.withOrders order?).WellFormed := by
  constructor
  · rw [keys_withOrders]
    exact h.keys_nodup
  · exact h.edges_nodup
  · rw [keys_withOrders]
    exact h.source_mem
  · rw [keys_withOrders]
    exact h.target_mem
  · exact h.source_ne_target

theorem WellFormed.after (h : g.WellFormed) (s : Step) : (g.after s).WellFormed := by
  cases s with
  | addNode k => exact h.addNode k
  | addEdge e => exact h.addEdge e
  | withOrders order? => exact h.withOrders order?

theorem Reachable.wellFormed (h : g.Reachable) : g.WellFormed := by
  induction h with
  | empty => constructor <;> simp [Graph.empty, keys]
  | step s _ ih => exact ih.after s

theorem Reachable.addNode (h : g.Reachable) (k : NodeKey) : (g.addNode k).2.Reachable :=
  .step (.addNode k) h

theorem Reachable.addEdge (h : g.Reachable) (e : Edge) : (g.addEdge e).2.Reachable :=
  .step (.addEdge e) h

/-- The graph that steps lead to from the empty one. -/
def ofSteps (steps : List Step) : Graph :=
  steps.foldl after Graph.empty

theorem reachable_ofSteps (steps : List Step) : (ofSteps steps).Reachable := by
  have run : ∀ (ss : List Step) (g : Graph), g.Reachable → (ss.foldl after g).Reachable := by
    intro ss
    induction ss with
    | nil => exact fun _ h => h
    | cons s rest ih => exact fun g h => ih _ (.step s h)
  exact run steps _ .empty

/-- Three classes in a row of which neighbours depend on each other, and a table that depends on the
first of them. -/
def overlapping : Graph :=
  let a : NodeKey := ⟨.classDef, "A"⟩
  let b : NodeKey := ⟨.classDef, "B"⟩
  let c : NodeKey := ⟨.classDef, "C"⟩
  let t : NodeKey := ⟨.table, "T"⟩
  ofSteps [.addNode a, .addNode b, .addNode c, .addNode t, .addEdge ⟨a, b, .inherits⟩,
    .addEdge ⟨b, a, .usesClass⟩, .addEdge ⟨b, c, .usesClass⟩, .addEdge ⟨c, b, .usesClass⟩,
    .addEdge ⟨t, a, .usesClass⟩]

/-! ## What the sorted lists hold -/

theorem mem_sortedKeys {k : NodeKey} : k ∈ g.sortedKeys ↔ k ∈ g.keys :=
  Sorted.mem_sort

theorem WellFormed.nodup_sortedKeys (h : g.WellFormed) : g.sortedKeys.Nodup :=
  (Sorted.perm_sort g.keys).nodup_iff.2 h.keys_nodup

theorem mem_successors {u v : NodeKey} : v ∈ g.successors u ↔ g.Depends u v := by
  rw [successors, Sorted.mem_distinct]
  simp [Depends, and_assoc]

theorem nodup_successors (g : Graph) (k : NodeKey) : (g.successors k).Nodup :=
  Sorted.nodup_distinct _

theorem WellFormed.not_depends_self (h : g.WellFormed) (k : NodeKey) : ¬ g.Depends k k := by
  rintro ⟨e, he, rfl, same⟩
  exact h.source_ne_target e he same.symm

theorem WellFormed.depends_mem (h : g.WellFormed) {u v : NodeKey} (huv : g.Depends u v) :
    u ∈ g.keys ∧ v ∈ g.keys := by
  obtain ⟨e, he, rfl, rfl⟩ := huv
  exact ⟨h.source_mem e he, h.target_mem e he⟩

end Graph

/-! ## Building is a run -/

namespace Build

theorem reachable_nodesOf (declared : List Declaration) : (nodesOf declared).Reachable := by
  have run : ∀ (ds : List Declaration) (g : Graph), g.Reachable →
      (ds.foldl (fun g d => (g.addNode d.key).2) g).Reachable := by
    intro ds
    induction ds with
    | nil => exact fun _ h => h
    | cons d rest ih => exact fun g h => ih _ (h.addNode d.key)
  exact run declared _ .empty

theorem reachable_addLink {out : BuildOutput} (h : out.graph.Reachable) (l : Link) :
    (addLink out l).graph.Reachable := by
  rw [addLink]
  split
  · exact h
  split
  · exact h.addEdge _
  · have added := (h.addNode (externalKey l)).addEdge ⟨l.source, externalKey l, l.kind⟩
    dsimp only
    split
    · next heq =>
      rw [heq] at added
      exact added
    · next heq =>
      rw [heq] at added
      exact added

/-- Every graph that is built from records is one that steps lead to. -/
theorem reachable_ofRecords (records : List EntityRecord) : (ofRecords records).graph.Reachable := by
  have run : ∀ (links : List Link) (out : BuildOutput), out.graph.Reachable →
      (links.foldl addLink out).graph.Reachable := by
    intro links
    induction links with
    | nil => exact fun _ h => h
    | cons l rest ih => exact fun out h => ih _ (reachable_addLink h l)
  exact run _ _ (reachable_nodesOf _)

end Build

end LayerGraph
