import LayerGraph.Proofs.SameGraph
import Mathlib

/-!
# What a graph holds

A graph keeps its nodes and edges in lists, in the order in which they were added. What it holds is
less: the keys in the order in which they came, a set of edges, and an order for each key. Steps act
on these contents alone, and the contents alone decide what an addition answers and what all queries
list.

Main statements:
1. `contents_after`, `contents_ofSteps`: contents follow their own rules, in each step and along a
   run.
2. `WellFormed.shows`: the queries of a graph list its contents.
3. `ofSteps_matches`: both together, for all runs from the empty graph.
-/

namespace LayerGraph

open Sorted (Ascending)

namespace Graph

/-- What a graph holds. The order of a key that is not held counts as not given. -/
@[ext]
structure Contents where
  keys : List NodeKey := []
  edges : Finset Edge := ∅
  order : NodeKey → Int := fun _ => unordered

namespace Contents

/-- What adding an edge has to answer: an absent end is found first, then equal ends, then a
repetition. -/
def verdict (c : Contents) (e : Edge) : EdgeInsert :=
  if e.source ∉ c.keys ∨ e.target ∉ c.keys then .missingEndpoint
  else if e.source = e.target then .selfLoop
  else if e ∈ c.edges then .duplicate
  else .added

/-- What a step makes of the contents. Giving orders changes those of the keys that are held and
have a new one. -/
def after (c : Contents) : Step → Contents
  | .addNode k => if k ∈ c.keys then c else { c with keys := c.keys ++ [k] }
  | .addEdge e => if c.verdict e = .added then { c with edges := insert e c.edges } else c
  | .withOrders order? =>
    { c with order := fun k => if k ∈ c.keys then (order? k).getD (c.order k) else c.order k }

/-- What steps make of nothing. -/
def ofSteps (steps : List Step) : Contents :=
  steps.foldl after {}

end Contents

/-- The contents of a graph. -/
def contents (g : Graph) : Contents where
  keys := g.keys
  edges := g.edges.toFinset
  order k := (g.node? k).elim unordered Node.order

/-! ## Contents after a step -/

section Steps

variable {g : Graph}

theorem node?_eq_none_iff {k : NodeKey} : g.node? k = none ↔ k ∉ g.keys := by
  simp [node?, keys]

theorem mem_and_key_of_node? {k : NodeKey} {n : Node} (h : g.node? k = some n) :
    n ∈ g.nodes ∧ n.key = k := by
  unfold node? at h
  exact ⟨List.mem_of_find?_eq_some h, by simpa using List.find?_some h⟩

theorem contents_addNode (k : NodeKey) :
    (g.addNode k).2.contents = g.contents.after (.addNode k) := by
  by_cases hk : k ∈ g.keys
  · have kept : (g.addNode k).2 = g := by rw [Graph.addNode, if_pos (contains_iff.2 hk)]
    rw [kept]
    exact (if_pos hk).symm
  · have grown : (g.addNode k).2 = { g with nodes := g.nodes ++ [{ key := k }] } := by
      rw [Graph.addNode, if_neg (mt contains_iff.1 hk)]
    have after_eq : g.contents.after (.addNode k) =
        { g.contents with keys := g.contents.keys ++ [k] } := if_neg hk
    rw [grown, after_eq]
    ext1
    · simp [contents, keys]
    · rfl
    · funext j
      -- the new node has no order yet, which is what its key counted as before
      have found : Graph.node? { g with nodes := g.nodes ++ [{ key := k }] } j =
          (g.node? j).or (if k = j then some { key := k } else none) := by
        simp [node?, List.find?_append]
      show Option.elim _ _ _ = Option.elim _ _ _
      rw [found]
      cases g.node? j with
      | some n => rfl
      | none => split <;> rfl

theorem addEdge_fst (e : Edge) : (g.addEdge e).1 = g.contents.verdict e := by
  have absent : (!(g.contains e.source && g.contains e.target)) = true ↔
      e.source ∉ g.keys ∨ e.target ∉ g.keys := by
    rw [← contains_iff, ← contains_iff]
    cases g.contains e.source <;> cases g.contains e.target <;> simp
  have held : e ∈ g.edges ↔ e ∈ g.contents.edges := List.mem_toFinset.symm
  unfold Graph.addEdge Contents.verdict
  simp only [absent, held]
  show Prod.fst (ite _ _ _) = ite _ _ _
  rw [apply_ite Prod.fst, apply_ite Prod.fst, apply_ite Prod.fst]
  rfl

/-- The graph changes with the answer `added` only. -/
theorem addEdge_snd (e : Edge) : (g.addEdge e).2 =
    if (g.addEdge e).1 = .added then { g with edges := g.edges ++ [e] } else g := by
  unfold Graph.addEdge
  split
  · rfl
  split
  · rfl
  split
  · rfl
  · rfl

theorem contents_addEdge (e : Edge) :
    (g.addEdge e).2.contents = g.contents.after (.addEdge e) := by
  rw [addEdge_snd, addEdge_fst, Contents.after]
  split
  · have grown : (g.edges ++ [e]).toFinset = insert e g.edges.toFinset := by
      rw [List.toFinset_append, Finset.union_comm]
      rfl
    ext1
    · rfl
    · exact grown
    · rfl
  · rfl

theorem contents_withOrders (order? : NodeKey → Option Int) :
    (g.withOrders order?).contents = g.contents.after (.withOrders order?) := by
  ext1
  · exact keys_withOrders order?
  · rfl
  · funext k
    have found : (g.withOrders order?).node? k =
        (g.node? k).map fun n => { n with order := (order? n.key).getD n.order } :=
      List.find?_map
    show Option.elim _ _ _ = if k ∈ g.keys then _ else _
    rw [found]
    cases hnode : g.node? k with
    | none =>
      rw [if_neg (node?_eq_none_iff.1 hnode)]
      simp [contents, hnode]
    | some n =>
      obtain ⟨hn, rfl⟩ := mem_and_key_of_node? hnode
      have hk : n.key ∈ g.keys := List.mem_map_of_mem hn
      rw [if_pos hk]
      simp [contents, hnode]

/-- A step acts on the contents alone. -/
theorem contents_after (s : Step) : (g.after s).contents = g.contents.after s := by
  cases s with
  | addNode k => exact contents_addNode k
  | addEdge e => exact contents_addEdge e
  | withOrders order? => exact contents_withOrders order?

theorem contents_ofSteps (steps : List Step) :
    (ofSteps steps).contents = Contents.ofSteps steps := by
  have run : ∀ (ss : List Step) (g : Graph),
      (ss.foldl Graph.after g).contents = ss.foldl Contents.after g.contents := by
    intro ss
    induction ss with
    | nil => exact fun _ => rfl
    | cons s rest ih =>
      intro g
      rw [List.foldl_cons, List.foldl_cons, ih, contents_after]
  exact run steps Graph.empty

end Steps

/-- The key that a step adds, if it adds one. -/
def Step.key? : Step → Option NodeKey
  | .addNode k => some k
  | .addEdge _ => none
  | .withOrders _ => none

/-- A last element counts unless it was there before. -/
theorem eraseDups_concat (ks : List NodeKey) (k : NodeKey) :
    (ks ++ [k]).eraseDups = if k ∈ ks then ks.eraseDups else ks.eraseDups ++ [k] := by
  rw [List.eraseDups_append]
  by_cases hk : k ∈ ks
  · simp [List.removeAll, hk]
  · simp [List.removeAll, hk, List.eraseDups_cons]

/-- The keys are those that were added, where each was added first. -/
theorem Contents.keys_ofSteps (steps : List Step) :
    (Contents.ofSteps steps).keys = (steps.filterMap Step.key?).eraseDups := by
  induction steps using List.reverseRecOn with
  | nil => rfl
  | append_singleton steps s ih =>
    have last : Contents.ofSteps (steps ++ [s]) = (Contents.ofSteps steps).after s :=
      List.foldl_append
    have held : ∀ k, k ∈ (Contents.ofSteps steps).keys ↔ k ∈ steps.filterMap Step.key? := by
      intro k
      rw [ih, List.mem_eraseDups]
    rw [last, List.filterMap_append]
    cases s with
    | addNode k =>
      show (ite _ _ _ : Contents).keys = (steps.filterMap Step.key? ++ [k]).eraseDups
      rw [eraseDups_concat, ← ih]
      simp only [held]
      split
      · rfl
      · rfl
    | addEdge e =>
      show (ite _ _ _ : Contents).keys = (steps.filterMap Step.key? ++ []).eraseDups
      rw [List.append_nil, ← ih]
      split
      · rfl
      · rfl
    | withOrders order? =>
      show (Contents.ofSteps steps).keys = (steps.filterMap Step.key? ++ []).eraseDups
      rw [List.append_nil, ih]

/-! ## What the queries list -/

/-- All that can be asked of a graph. -/
structure View where
  nodes : List Node
  nodeCount : Nat
  edgeCount : Nat
  contains : NodeKey → Bool
  node? : NodeKey → Option Node
  sortedKeys : List NodeKey
  sortedEdges : List Edge
  successors : NodeKey → List NodeKey
  predecessors : NodeKey → List NodeKey
  inDegree : NodeKey → Nat
  outDegree : NodeKey → Nat
  kindsBetween : NodeKey → NodeKey → List EdgeKind

/-- All answers of a graph. -/
def view (g : Graph) : View where
  nodes := g.nodes
  nodeCount := g.nodeCount
  edgeCount := g.edgeCount
  contains := g.contains
  node? := g.node?
  sortedKeys := g.sortedKeys
  sortedEdges := g.sortedEdges
  successors := g.successors
  predecessors := g.predecessors
  inDegree := g.inDegree
  outDegree := g.outDegree
  kindsBetween := g.kindsBetween

/-- The answers list these contents: nodes, keys and edges each once, neighbours and kinds in their
order, and degrees that add up to the number of edges. -/
structure Shows (v : View) (c : Contents) : Prop where
  keys_nodup : c.keys.Nodup
  nodes : v.nodes = c.keys.map fun k => ⟨k, c.order k⟩
  contains : ∀ k, v.contains k = true ↔ k ∈ c.keys
  node? : ∀ k, v.node? k = if k ∈ c.keys then some ⟨k, c.order k⟩ else none
  sortedKeys : Ascending v.sortedKeys ∧ ∀ k, k ∈ v.sortedKeys ↔ k ∈ c.keys
  sortedEdges : Ascending v.sortedEdges ∧ ∀ e, e ∈ v.sortedEdges ↔ e ∈ c.edges
  successors : ∀ s, Ascending (v.successors s) ∧
    ∀ t, t ∈ v.successors s ↔ ∃ kind, ⟨s, t, kind⟩ ∈ c.edges
  predecessors : ∀ t, Ascending (v.predecessors t) ∧
    ∀ s, s ∈ v.predecessors t ↔ ∃ kind, ⟨s, t, kind⟩ ∈ c.edges
  dual : ∀ s t, t ∈ v.successors s ↔ s ∈ v.predecessors t
  kindsBetween : ∀ s t, Ascending (v.kindsBetween s t) ∧
    ∀ kind, kind ∈ v.kindsBetween s t ↔ ⟨s, t, kind⟩ ∈ c.edges
  ends : ∀ e ∈ c.edges, e.source ∈ c.keys ∧ e.target ∈ c.keys ∧ e.source ≠ e.target
  nodeCount : v.nodeCount = c.keys.length
  edgeCount : v.edgeCount = c.edges.card
  inDegree : ∀ k, v.inDegree k = (c.edges.filter (·.target = k)).card
  outDegree : ∀ k, v.outDegree k = (c.edges.filter (·.source = k)).card
  sum_inDegree : (c.keys.map v.inDegree).sum = v.edgeCount
  sum_outDegree : (c.keys.map v.outDegree).sum = v.edgeCount

section Queries

variable {g : Graph}

theorem WellFormed.node?_key (h : g.WellFormed) {n : Node} (hn : n ∈ g.nodes) :
    g.node? n.key = some n := by
  cases hnode : g.node? n.key with
  | none => exact absurd (List.mem_map_of_mem hn) (node?_eq_none_iff.1 hnode)
  | some m =>
    obtain ⟨hm, hkey⟩ := mem_and_key_of_node? hnode
    rw [h.eq_of_key_eq hm hn hkey]

theorem WellFormed.nodes_eq (h : g.WellFormed) :
    g.nodes = g.keys.map fun k => ⟨k, g.contents.order k⟩ := by
  have same : ∀ n ∈ g.nodes, (⟨n.key, g.contents.order n.key⟩ : Node) = n := by
    intro n hn
    show (⟨n.key, (g.node? n.key).elim _ _⟩ : Node) = n
    rw [h.node?_key hn]
    rfl
  rw [keys, List.map_map]
  exact (List.map_id g.nodes).symm.trans (List.map_congr_left fun n hn => (same n hn).symm)

theorem WellFormed.node?_eq (h : g.WellFormed) (k : NodeKey) :
    g.node? k = if k ∈ g.keys then some ⟨k, g.contents.order k⟩ else none := by
  split
  · next hk =>
    have hn : (⟨k, g.contents.order k⟩ : Node) ∈ g.nodes := by
      rw [h.nodes_eq]
      exact List.mem_map_of_mem hk
    exact h.node?_key hn
  · next hk => exact node?_eq_none_iff.2 hk

theorem mem_predecessors {u v : NodeKey} : u ∈ g.predecessors v ↔ g.Depends u v := by
  rw [predecessors, Sorted.mem_distinct]
  simp only [List.mem_map, List.mem_filter, decide_eq_true_eq, Depends]
  exact exists_congr fun e => by tauto

theorem depends_iff {u v : NodeKey} :
    g.Depends u v ↔ ∃ kind, (⟨u, v, kind⟩ : Edge) ∈ g.contents.edges := by
  constructor
  · rintro ⟨e, he, rfl, rfl⟩
    exact ⟨e.kind, List.mem_toFinset.2 he⟩
  · rintro ⟨kind, he⟩
    exact ⟨_, List.mem_toFinset.1 he, rfl, rfl⟩

theorem mem_kindsBetween {u v : NodeKey} {kind : EdgeKind} :
    kind ∈ g.kindsBetween u v ↔ (⟨u, v, kind⟩ : Edge) ∈ g.contents.edges := by
  rw [kindsBetween, Sorted.mem_sort, contents, List.mem_toFinset]
  simp only [List.mem_map, List.mem_filter, decide_eq_true_eq]
  constructor
  · rintro ⟨e, ⟨he, rfl, rfl⟩, rfl⟩
    exact he
  · intro he
    exact ⟨_, ⟨he, rfl, rfl⟩, rfl⟩

theorem WellFormed.ascending_kindsBetween (h : g.WellFormed) (u v : NodeKey) :
    Ascending (g.kindsBetween u v) := by
  refine Sorted.ascending_sort ((h.edges_nodup.filter _).map_on ?_)
  intro a ha b hb hkind
  have ends := of_decide_eq_true (List.mem_filter.1 ha).2
  have ends' := of_decide_eq_true (List.mem_filter.1 hb).2
  obtain ⟨source, target, kind⟩ := a
  obtain ⟨rfl, rfl⟩ := ends
  obtain ⟨source', target', kind'⟩ := b
  obtain ⟨rfl, rfl⟩ := ends'
  exact congrArg (Edge.mk _ _) hkind

theorem WellFormed.countP_eq_card (h : g.WellFormed) (p : Edge → Prop) [DecidablePred p] :
    g.edges.countP (p ·) = (g.contents.edges.filter p).card := by
  have same : (g.edges.filter (p ·)).toFinset = g.contents.edges.filter p := by
    rw [List.toFinset_filter]
    simp [contents]
  rw [List.countP_eq_length_filter, ← same, List.toFinset_card_of_nodup (h.edges_nodup.filter _)]

/-- If each edge ends at a key, one way or the other, then counting by that end counts all edges. -/
theorem WellFormed.sum_countP (h : g.WellFormed) (endOf : Edge → NodeKey)
    (mem : ∀ e ∈ g.edges, endOf e ∈ g.keys) :
    (g.keys.map fun k => g.edges.countP (endOf · = k)).sum = g.edgeCount := by
  have maps : Set.MapsTo endOf (g.edges.toFinset : Set Edge) (g.keys.toFinset : Set NodeKey) := by
    intro e he
    exact List.mem_toFinset.2 (mem e (List.mem_toFinset.1 he))
  calc (g.keys.map fun k => g.edges.countP (endOf · = k)).sum
      = ∑ k ∈ g.keys.toFinset, g.edges.countP (endOf · = k) :=
        (List.sum_toFinset _ h.keys_nodup).symm
    _ = ∑ k ∈ g.keys.toFinset, (g.edges.toFinset.filter (endOf · = k)).card :=
        Finset.sum_congr rfl fun k _ => h.countP_eq_card (endOf · = k)
    _ = g.edges.toFinset.card := (Finset.card_eq_sum_card_fiberwise maps).symm
    _ = g.edgeCount := List.toFinset_card_of_nodup h.edges_nodup

theorem WellFormed.shows (h : g.WellFormed) : Shows g.view g.contents where
  keys_nodup := h.keys_nodup
  nodes := h.nodes_eq
  contains _ := contains_iff
  node? := h.node?_eq
  sortedKeys := ⟨Sorted.ascending_sort h.keys_nodup, fun _ => mem_sortedKeys⟩
  sortedEdges := ⟨Sorted.ascending_sort h.edges_nodup,
    fun _ => Sorted.mem_sort.trans List.mem_toFinset.symm⟩
  successors u := ⟨Sorted.pairwise_distinct _, fun _ => mem_successors.trans depends_iff⟩
  predecessors v := ⟨Sorted.pairwise_distinct _, fun _ => mem_predecessors.trans depends_iff⟩
  dual u v := mem_successors.trans mem_predecessors.symm
  kindsBetween u v := ⟨h.ascending_kindsBetween u v, fun _ => mem_kindsBetween⟩
  ends e he := by
    have he' : e ∈ g.edges := List.mem_toFinset.1 he
    exact ⟨h.source_mem e he', h.target_mem e he', h.source_ne_target e he'⟩
  nodeCount := (List.length_map _).symm
  edgeCount := (List.toFinset_card_of_nodup h.edges_nodup).symm
  inDegree k := h.countP_eq_card (·.target = k)
  outDegree k := h.countP_eq_card (·.source = k)
  sum_inDegree := h.sum_countP Edge.target h.target_mem
  sum_outDegree := h.sum_countP Edge.source h.source_mem

end Queries

/-! ## Runs -/

theorem addNode_fst (g : Graph) (k : NodeKey) :
    (g.addNode k).1 = true ↔ k ∉ g.contents.keys := by
  have held : g.contains k = true ↔ k ∈ g.contents.keys := contains_iff
  rw [← held, Graph.addNode]
  cases g.contains k <;> simp

theorem addNode_snd_ne (g : Graph) (k : NodeKey) :
    (g.addNode k).2 ≠ g ↔ k ∉ g.contents.keys := by
  have held : g.contains k = true ↔ k ∈ g.contents.keys := contains_iff
  rw [← held, Graph.addNode]
  cases g.contains k with
  | true => simp
  | false =>
    have grown : (⟨g.nodes ++ [{ key := k }], g.edges⟩ : Graph) ≠ g :=
      fun same => by simpa using congrArg Graph.nodes same
    simpa using grown

theorem addEdge_snd_ne (g : Graph) (e : Edge) :
    (g.addEdge e).2 ≠ g ↔ g.contents.verdict e = .added := by
  rw [addEdge_snd, addEdge_fst]
  split
  · next hadded =>
    refine iff_of_true (fun same => ?_) hadded
    simpa using congrArg Graph.edges same
  · next hrefused => exact iff_of_false (fun changed => changed rfl) hrefused

/-- Along every run from the empty graph the contents follow their own rules, they decide what an
addition answers and whether it changes the graph, and they are what the queries list. -/
theorem ofSteps_matches (steps : List Step) :
    (ofSteps steps).contents = Contents.ofSteps steps ∧
      (Contents.ofSteps steps).keys = (steps.filterMap Step.key?).eraseDups ∧
      (∀ k, ((ofSteps steps).addNode k).1 = true ↔ k ∉ (Contents.ofSteps steps).keys) ∧
      (∀ k, ((ofSteps steps).addNode k).2 ≠ ofSteps steps ↔ k ∉ (Contents.ofSteps steps).keys) ∧
      (∀ e, ((ofSteps steps).addEdge e).1 = (Contents.ofSteps steps).verdict e) ∧
      (∀ e, ((ofSteps steps).addEdge e).2 ≠ ofSteps steps ↔
        (Contents.ofSteps steps).verdict e = .added) ∧
      Shows (ofSteps steps).view (Contents.ofSteps steps) := by
  have reached := contents_ofSteps steps
  have shows := (reachable_ofSteps steps).wellFormed.shows
  refine ⟨reached, Contents.keys_ofSteps steps, ?_⟩
  rw [← reached]
  exact ⟨addNode_fst _, addNode_snd_ne _, addEdge_fst, addEdge_snd_ne _, shows⟩

end Graph

end LayerGraph
