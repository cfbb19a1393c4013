import LayerGraph.Graph.Indexed
import LayerGraph.Proofs.GraphContents
import Mathlib

/-!
# Graphs by index and graphs by key

Each step of a graph by index keeps its parts together: the map tells the place of each key and no
other, and each edge names two different places that there are. Then a lookup through the map finds
what a search for the key finds. So the graph takes each step as a graph by key does, and all that
can be asked of the one has the same answer in the other.

Main statements:
1. `Sound.after`: each step keeps the map, the nodes and the edges together, and is the one of the
   graph by key.
2. `Sound.view_eq`: lookups by place list what lookups by key list.
3. `indexed_ofSteps_matches`: what a graph by index holds and shows, for all runs from the empty one.
-/

namespace LayerGraph

/-- The end at which an edge is found. -/
def Edge.near (e : Edge) : Direction → NodeKey
  | .outgoing => e.source
  | .incoming => e.target

/-- The end to which an edge leads. -/
def Edge.far (e : Edge) : Direction → NodeKey
  | .outgoing => e.target
  | .incoming => e.source

namespace IndexedGraph

/-- The graph by key. -/
def toGraph (g : IndexedGraph) : Graph where
  nodes := g.nodes
  edges := g.edges.map g.edgeAt

/-- All answers of a graph by index. -/
def view (g : IndexedGraph) : Graph.View where
  nodes := g.nodes
  nodeCount := g.nodes.length
  edgeCount := g.edges.length
  contains := g.contains
  node? := g.node?
  sortedKeys := g.sortedKeys
  sortedEdges := g.sortedEdges
  successors k := g.neighbours k .outgoing
  predecessors k := g.neighbours k .incoming
  inDegree k := g.degree k .incoming
  outDegree k := g.degree k .outgoing
  kindsBetween := g.kindsBetween

/-- The map, the nodes and the edges belong together. -/
structure Sound (g : IndexedGraph) : Prop where
  places_iff : ∀ k i, g.places[k]? = some i ↔ i < g.nodes.length ∧ g.keyAt i = k
  ends_lt : ∀ x ∈ g.edges, ∀ d, x.near d < g.nodes.length
  ends_ne : ∀ x ∈ g.edges, x.source ≠ x.target
  edges_nodup : g.edges.Nodup

variable {g : IndexedGraph} {k : NodeKey} {i p q : Nat} {e : Edge} {x : IndexedEdge} {d : Direction}

theorem near_edgeAt : (g.edgeAt x).near d = g.keyAt (x.near d) := by
  cases d with
  | outgoing => rfl
  | incoming => rfl

theorem far_edgeAt : (g.edgeAt x).far d = g.keyAt (x.far d) := by
  cases d with
  | outgoing => rfl
  | incoming => rfl

theorem contains_iff : g.contains k = true ↔ ∃ i, g.places[k]? = some i := by
  rw [contains, Std.TreeMap.contains_eq_isSome_getElem?, Option.isSome_iff_exists]

/-! ## Places and keys -/

namespace Sound

/-- Of the places that there are, only the one of a key has this key. -/
theorem keyAt_eq_iff (h : g.Sound) (hp : g.places[k]? = some p) (hi : i < g.nodes.length) :
    g.keyAt i = k ↔ i = p := by
  constructor
  · intro hkey
    have hplace := (h.places_iff k i).2 ⟨hi, hkey⟩
    exact Option.some.inj (hplace.symm.trans hp)
  · rintro rfl
    exact ((h.places_iff k i).1 hp).2

theorem place_keyAt (h : g.Sound) (hi : i < g.nodes.length) : g.places[g.keyAt i]? = some i :=
  (h.places_iff _ i).2 ⟨hi, rfl⟩

theorem mem_keys_iff (h : g.Sound) : k ∈ g.toGraph.keys ↔ ∃ i, g.places[k]? = some i := by
  rw [Graph.keys, List.mem_map]
  constructor
  · rintro ⟨n, hn, rfl⟩
    obtain ⟨i, hi, rfl⟩ := List.mem_iff_getElem.1 hn
    refine ⟨i, (h.places_iff _ i).2 ⟨hi, ?_⟩⟩
    rw [keyAt, getElem!_pos g.nodes i hi]
    rfl
  · rintro ⟨i, hplace⟩
    obtain ⟨hi, rfl⟩ := (h.places_iff k i).1 hplace
    refine ⟨g.nodes[i], List.getElem_mem hi, ?_⟩
    rw [keyAt, getElem!_pos g.nodes i hi]

theorem contains_eq (h : g.Sound) : g.contains k = g.toGraph.contains k := by
  rw [Bool.eq_iff_iff, contains_iff, Graph.contains_iff, h.mem_keys_iff]

theorem edgeAt_eq_iff (h : g.Sound) (hp : g.places[e.source]? = some p)
    (hq : g.places[e.target]? = some q) (hx : x ∈ g.edges) :
    g.edgeAt x = e ↔ x = ⟨p, q, e.kind⟩ := by
  have source_iff := h.keyAt_eq_iff hp (h.ends_lt x hx .outgoing)
  have target_iff := h.keyAt_eq_iff hq (h.ends_lt x hx .incoming)
  obtain ⟨source, target, kind⟩ := e
  obtain ⟨i, j, kind'⟩ := x
  rw [edgeAt, Edge.mk.injEq, IndexedEdge.mk.injEq]
  exact and_congr source_iff (and_congr_left' target_iff)

theorem mem_edges_iff (h : g.Sound) (hp : g.places[e.source]? = some p)
    (hq : g.places[e.target]? = some q) : e ∈ g.toGraph.edges ↔ ⟨p, q, e.kind⟩ ∈ g.edges := by
  rw [toGraph, List.mem_map]
  constructor
  · rintro ⟨x, hx, heq⟩
    rwa [← (h.edgeAt_eq_iff hp hq hx).1 heq]
  · intro hx
    exact ⟨_, hx, (h.edgeAt_eq_iff hp hq hx).2 rfl⟩

end Sound

/-! ## Steps -/

theorem keyAt_withNode (hi : i < g.nodes.length) : (g.withNode k).keyAt i = g.keyAt i := by
  unfold keyAt withNode
  rw [getElem!_pos (g.nodes ++ _) i (by simp; omega), getElem!_pos g.nodes i hi,
    List.getElem_append_left hi]

theorem keyAt_withNode_last : (g.withNode k).keyAt g.nodes.length = k := by
  unfold keyAt withNode
  rw [getElem!_pos (g.nodes ++ _) _ (by simp), List.getElem_concat_length rfl]

theorem places_withNode (j : NodeKey) : (g.withNode k).places[j]? =
    if j = k then some g.nodes.length else g.places[j]? :=
  Sorted.getElem?_insert _ _ _ _

theorem keyAt_withOrders (order? : NodeKey → Option Int) :
    (g.withOrders order?).keyAt i = g.keyAt i := by
  unfold keyAt withOrders
  by_cases hi : i < g.nodes.length
  · rw [getElem!_pos (g.nodes.map _) i (by simpa using hi), getElem!_pos g.nodes i hi,
      List.getElem_map]
  · rw [getElem!_neg (g.nodes.map _) i (by simpa using hi), getElem!_neg g.nodes i hi]

namespace Sound

theorem empty : Sound {} where
  places_iff k i := by simp
  ends_lt x hx := absurd hx List.not_mem_nil
  ends_ne x hx := absurd hx List.not_mem_nil
  edges_nodup := List.nodup_nil

theorem withNode (h : g.Sound) (new : g.places[k]? = none) : (g.withNode k).Sound where
  places_iff j i := by
    have length : (g.withNode k).nodes.length = g.nodes.length + 1 := List.length_append
    rw [places_withNode, length, Nat.lt_succ_iff_lt_or_eq]
    split
    · next same =>
      subst same
      constructor
      · intro hi
        obtain rfl := Option.some.inj hi
        exact ⟨.inr rfl, keyAt_withNode_last⟩
      · rintro ⟨hi | rfl, hkey⟩
        · rw [keyAt_withNode hi] at hkey
          exact absurd ((h.places_iff j i).2 ⟨hi, hkey⟩) (by simp [new])
        · rfl
    · next other =>
      rw [h.places_iff]
      constructor
      · rintro ⟨hi, hkey⟩
        exact ⟨.inl hi, (keyAt_withNode hi).trans hkey⟩
      · rintro ⟨hi | rfl, hkey⟩
        · exact ⟨hi, (keyAt_withNode hi).symm.trans hkey⟩
        · exact absurd (hkey.symm.trans keyAt_withNode_last) other
  ends_lt x hx d := (h.ends_lt x hx d).trans (by simp [IndexedGraph.withNode])
  ends_ne := h.ends_ne
  edges_nodup := h.edges_nodup

theorem toGraph_withNode (h : g.Sound) (k : NodeKey) : (g.withNode k).toGraph =
    { g.toGraph with nodes := g.toGraph.nodes ++ [{ key := k }] } := by
  have kept : g.edges.map (g.withNode k).edgeAt = g.edges.map g.edgeAt := by
    refine List.map_congr_left fun x hx => ?_
    have source := keyAt_withNode (k := k) (h.ends_lt x hx .outgoing)
    have target := keyAt_withNode (k := k) (h.ends_lt x hx .incoming)
    exact congrArg₂ (Edge.mk · · x.kind) source target
  exact congrArg (Graph.mk _) kept

theorem addNode (h : g.Sound) (k : NodeKey) : (g.addNode k).2.Sound ∧
    (g.addNode k).1 = (g.toGraph.addNode k).1 ∧
      (g.addNode k).2.toGraph = (g.toGraph.addNode k).2 := by
  have same : g.places.contains k = g.toGraph.contains k := h.contains_eq
  unfold IndexedGraph.addNode Graph.addNode
  rw [← same]
  split
  · exact ⟨h, rfl, rfl⟩
  · next absent =>
    have new : g.places[k]? = none := by
      rw [Option.eq_none_iff_forall_ne_some]
      exact fun i hi => absent (contains_iff.2 ⟨i, hi⟩)
    exact ⟨h.withNode new, rfl, h.toGraph_withNode k⟩

theorem withEdge (h : g.Sound) (hp : p < g.nodes.length) (hq : q < g.nodes.length) (ne : p ≠ q)
    {kind : EdgeKind} (new : ⟨p, q, kind⟩ ∉ g.edges) : (g.withEdge ⟨p, q, kind⟩).Sound where
  places_iff := h.places_iff
  ends_lt x hx d := by
    rcases List.mem_append.1 hx with hx | hx
    · exact h.ends_lt x hx d
    · obtain rfl := List.mem_singleton.1 hx
      cases d with
      | outgoing => exact hp
      | incoming => exact hq
  ends_ne x hx := by
    rcases List.mem_append.1 hx with hx | hx
    · exact h.ends_ne x hx
    · obtain rfl := List.mem_singleton.1 hx
      exact ne
  edges_nodup := by
    show (g.edges ++ [_]).Nodup
    rw [← List.concat_eq_append]
    exact h.edges_nodup.concat new

theorem addEdge (h : g.Sound) (e : Edge) : (g.addEdge e).2.Sound ∧
    (g.addEdge e).1 = (g.toGraph.addEdge e).1 ∧
      (g.addEdge e).2.toGraph = (g.toGraph.addEdge e).2 := by
  unfold IndexedGraph.addEdge Graph.addEdge
  rw [← h.contains_eq, ← h.contains_eq, contains, contains,
    Std.TreeMap.contains_eq_isSome_getElem?, Std.TreeMap.contains_eq_isSome_getElem?]
  cases hp : g.places[e.source]? with
  | none => exact ⟨h, rfl, rfl⟩
  | some p =>
    cases hq : g.places[e.target]? with
    | none => exact ⟨h, rfl, rfl⟩
    | some q =>
      obtain ⟨p_lt, hsource⟩ := (h.places_iff _ _).1 hp
      obtain ⟨q_lt, htarget⟩ := (h.places_iff _ _).1 hq
      have loop : p = q ↔ e.source = e.target := by
        rw [← htarget, eq_comm (a := e.source), h.keyAt_eq_iff hp q_lt, eq_comm]
      have repeated : (g.connecting p q).any (·.kind = e.kind) = true ↔ e ∈ g.toGraph.edges := by
        rw [h.mem_edges_iff hp hq, List.any_eq_true]
        simp only [connecting, List.mem_filter, decide_eq_true_eq]
        constructor
        · rintro ⟨x, ⟨hx, rfl, rfl⟩, hkind⟩
          rwa [← hkind]
        · exact fun hx => ⟨⟨p, q, e.kind⟩, ⟨hx, rfl, rfl⟩, rfl⟩
      simp only [loop, repeated, Option.isSome_some, Bool.and_self, Bool.not_true,
        Bool.false_eq_true, if_false]
      split
      · exact ⟨h, rfl, rfl⟩
      · next apart =>
        split
        · exact ⟨h, rfl, rfl⟩
        · next new =>
          refine ⟨h.withEdge p_lt q_lt (mt loop.1 apart) ?_, rfl, ?_⟩
          · rwa [← h.mem_edges_iff hp hq]
          · have added : g.edgeAt ⟨p, q, e.kind⟩ = e := by
              rw [edgeAt, hsource, htarget]
            have grown : (g.edges ++ [IndexedEdge.mk p q e.kind]).map g.edgeAt =
                g.toGraph.edges ++ [e] := by
              rw [List.map_append, List.map_singleton, added]
              rfl
            exact congrArg (Graph.mk g.nodes) grown

theorem withOrders (h : g.Sound) (order? : NodeKey → Option Int) : (g.withOrders order?).Sound where
  places_iff k i := by
    rw [keyAt_withOrders]
    show g.places[k]? = some i ↔ i < (g.nodes.map _).length ∧ _
    rw [List.length_map, h.places_iff]
  ends_lt x hx d := by
    show _ < (g.nodes.map _).length
    rw [List.length_map]
    exact h.ends_lt x hx d
  ends_ne := h.ends_ne
  edges_nodup := h.edges_nodup

theorem toGraph_withOrders (order? : NodeKey → Option Int) :
    (g.withOrders order?).toGraph = g.toGraph.withOrders order? := by
  have kept : (g.withOrders order?).edgeAt = g.edgeAt := by
    funext x
    rw [edgeAt, keyAt_withOrders, keyAt_withOrders]
    rfl
  unfold toGraph
  rw [kept]
  rfl

/-- Each step keeps the parts of the graph together, and it is the step of the graph by key. -/
theorem after (h : g.Sound) (s : Graph.Step) :
    (g.after s).Sound ∧ (g.after s).toGraph = g.toGraph.after s := by
  cases s with
  | addNode k => exact ⟨(h.addNode k).1, (h.addNode k).2.2⟩
  | addEdge e => exact ⟨(h.addEdge e).1, (h.addEdge e).2.2⟩
  | withOrders order? => exact ⟨h.withOrders order?, toGraph_withOrders order?⟩

theorem ofSteps (steps : List Graph.Step) :
    (ofSteps steps).Sound ∧ (IndexedGraph.ofSteps steps).toGraph = Graph.ofSteps steps := by
  have run : ∀ (ss : List Graph.Step) (g : IndexedGraph), g.Sound →
      (ss.foldl IndexedGraph.after g).Sound ∧
        (ss.foldl IndexedGraph.after g).toGraph = ss.foldl Graph.after g.toGraph := by
    intro ss
    induction ss with
    | nil => exact fun _ h => ⟨h, rfl⟩
    | cons s rest ih =>
      intro g h
      rw [List.foldl_cons, List.foldl_cons, ← (h.after s).2]
      exact ih _ (h.after s).1
  exact run steps {} .empty

/-! ## Lookups -/

theorem edges_at_place (h : g.Sound) (hp : g.places[k]? = some p) :
    g.toGraph.edges.filter (·.near d = k) = (g.edgesFrom p d).map g.edgeAt := by
  rw [toGraph, List.filter_map, edgesFrom]
  refine congrArg _ (List.filter_congr fun x hx => decide_eq_decide.2 ?_)
  rw [near_edgeAt, h.keyAt_eq_iff hp (h.ends_lt x hx d)]

theorem exists_place (h : g.Sound) (he : e ∈ g.toGraph.edges) (d : Direction) :
    ∃ i, g.places[e.near d]? = some i := by
  obtain ⟨x, hx, rfl⟩ := List.mem_map.1 he
  rw [near_edgeAt]
  exact ⟨_, h.place_keyAt (h.ends_lt x hx d)⟩

theorem no_edges_at (h : g.Sound) (absent : g.places[k]? = none) :
    g.toGraph.edges.filter (·.near d = k) = [] := by
  rw [List.filter_eq_nil_iff]
  intro e he
  rw [decide_eq_true_iff]
  rintro rfl
  obtain ⟨i, hi⟩ := h.exists_place he d
  simp [absent] at hi

theorem neighbours_eq (h : g.Sound) (k : NodeKey) (d : Direction) : g.neighbours k d =
    Sorted.distinct ((g.toGraph.edges.filter (·.near d = k)).map (·.far d)) := by
  unfold neighbours
  cases hp : g.places[k]? with
  | none =>
    rw [h.no_edges_at hp]
    simp [Sorted.distinct, Sorted.sort, Sorted.dropRepeats]
  | some p =>
    rw [h.edges_at_place hp, List.map_map]
    exact congrArg Sorted.distinct (List.map_congr_left fun x _ => far_edgeAt.symm)

theorem degree_eq (h : g.Sound) (k : NodeKey) (d : Direction) :
    g.degree k d = g.toGraph.edges.countP (·.near d = k) := by
  rw [List.countP_eq_length_filter]
  unfold degree
  cases hp : g.places[k]? with
  | none =>
    rw [h.no_edges_at hp]
    rfl
  | some p => rw [h.edges_at_place hp, List.length_map]

theorem kindsBetween_eq (h : g.Sound) (s t : NodeKey) :
    g.kindsBetween s t = g.toGraph.kindsBetween s t := by
  have none_between (absent : g.places[s]? = none ∨ g.places[t]? = none) :
      g.toGraph.kindsBetween s t = [] := by
    have no_edges : g.toGraph.edges.filter (fun e => e.source = s ∧ e.target = t) = [] := by
      rw [List.filter_eq_nil_iff]
      intro e he
      rw [decide_eq_true_iff]
      rintro ⟨rfl, rfl⟩
      obtain ⟨i, hi⟩ := h.exists_place he .outgoing
      obtain ⟨j, hj⟩ := h.exists_place he .incoming
      exact absent.elim (fun hs => nomatch hs.symm.trans hi) fun ht => nomatch ht.symm.trans hj
    rw [Graph.kindsBetween, no_edges]
    simp [Sorted.sort]
  unfold IndexedGraph.kindsBetween
  cases hs : g.places[s]? with
  | none => exact (none_between (.inl hs)).symm
  | some p =>
    cases ht : g.places[t]? with
    | none => exact (none_between (.inr ht)).symm
    | some q =>
      have between : g.toGraph.edges.filter (fun e => e.source = s ∧ e.target = t) =
          (g.connecting p q).map g.edgeAt := by
        rw [toGraph, List.filter_map, connecting]
        refine congrArg _ (List.filter_congr fun x hx => decide_eq_decide.2 ?_)
        exact and_congr (h.keyAt_eq_iff hs (h.ends_lt x hx .outgoing))
          (h.keyAt_eq_iff ht (h.ends_lt x hx .incoming))
      rw [Graph.kindsBetween, between, List.map_map]
      rfl

theorem node?_eq (h : g.Sound) (wellFormed : g.toGraph.WellFormed) (k : NodeKey) :
    g.node? k = g.toGraph.node? k := by
  unfold IndexedGraph.node?
  cases hp : g.places[k]? with
  | none =>
    refine (Graph.node?_eq_none_iff.2 fun hk => ?_).symm
    obtain ⟨i, hi⟩ := h.mem_keys_iff.1 hk
    exact absurd hi (by simp [hp])
  | some p =>
    obtain ⟨hlt, rfl⟩ := (h.places_iff k p).1 hp
    have hmem : g.nodes[p]! ∈ g.nodes := by
      rw [getElem!_pos g.nodes p hlt]
      exact List.getElem_mem hlt
    exact (wellFormed.node?_key hmem).symm

theorem sortedKeys_eq (h : g.Sound) (wellFormed : g.toGraph.WellFormed) :
    g.sortedKeys = g.toGraph.sortedKeys := by
  have distinct : g.places.keys.Nodup := Std.TreeMap.nodup_keys
  refine Sorted.Ascending.eq_of_mem_iff (Sorted.ascending_sort distinct)
    (Sorted.ascending_sort wellFormed.keys_nodup) fun k => ?_
  rw [sortedKeys, Graph.sortedKeys, Sorted.mem_sort, Sorted.mem_sort, Std.TreeMap.mem_keys,
    h.mem_keys_iff, ← contains_iff]
  exact Std.TreeMap.contains_iff_mem.symm

/-- All that can be asked of a graph by index has the answer of the graph by key. -/
theorem view_eq (h : g.Sound) (wellFormed : g.toGraph.WellFormed) : g.view = g.toGraph.view := by
  unfold view Graph.view
  congr 1
  · exact (List.length_map _).symm
  · exact funext fun k => h.contains_eq
  · exact funext fun k => h.node?_eq wellFormed k
  · exact h.sortedKeys_eq wellFormed
  · exact funext fun k => h.neighbours_eq k .outgoing
  · exact funext fun k => h.neighbours_eq k .incoming
  · exact funext fun k => h.degree_eq k .incoming
  · exact funext fun k => h.degree_eq k .outgoing
  · exact funext₂ h.kindsBetween_eq

end Sound

/-! ## Runs -/

theorem addNode_snd_ne (g : IndexedGraph) (k : NodeKey) :
    (g.addNode k).2 ≠ g ↔ (g.addNode k).1 = true := by
  unfold addNode
  split
  · exact iff_of_false (fun changed => changed rfl) Bool.false_ne_true
  · refine iff_of_true (fun same => ?_) rfl
    simpa [withNode] using congrArg nodes same

theorem addEdge_snd_ne (g : IndexedGraph) (e : Edge) :
    (g.addEdge e).2 ≠ g ↔ (g.addEdge e).1 = .added := by
  unfold addEdge
  split
  · split
    · exact iff_of_false (fun changed => changed rfl) nofun
    · split
      · exact iff_of_false (fun changed => changed rfl) nofun
      · refine iff_of_true (fun same => ?_) rfl
        simpa [withEdge] using congrArg edges same
  · exact iff_of_false (fun changed => changed rfl) nofun

/-- Along every run from the empty graph its map, nodes and edges belong together. Its contents follow
their own rules, they decide what an addition answers and whether it changes the graph, and they are
what all lookups show. -/
theorem indexed_ofSteps_matches (steps : List Graph.Step) :
    let g := ofSteps steps
    let c := Graph.Contents.ofSteps steps
    g.Sound ∧ g.toGraph = Graph.ofSteps steps ∧ g.toGraph.contents = c ∧
      c.keys = (steps.filterMap Graph.Step.key?).eraseDups ∧
      (∀ k, (g.addNode k).1 = true ↔ k ∉ c.keys) ∧
      (∀ k, (g.addNode k).2 ≠ g ↔ k ∉ c.keys) ∧
      (∀ e, (g.addEdge e).1 = c.verdict e) ∧
      (∀ e, (g.addEdge e).2 ≠ g ↔ c.verdict e = .added) ∧
      Graph.Shows g.view c := by
  intro g c
  obtain ⟨sound, same⟩ : g.Sound ∧ g.toGraph = Graph.ofSteps steps := Sound.ofSteps steps
  have wellFormed : g.toGraph.WellFormed := same ▸ (Graph.reachable_ofSteps steps).wellFormed
  have matched := Graph.ofSteps_matches steps
  rw [← same] at matched
  obtain ⟨reached, keys, adds, -, judges, -, shows⟩ := matched
  have added (k : NodeKey) : (g.addNode k).1 = true ↔ k ∉ c.keys := by
    rw [(sound.addNode k).2.1, adds]
  have verdict (e : Edge) : (g.addEdge e).1 = c.verdict e := by
    rw [(sound.addEdge e).2.1, judges]
  refine ⟨sound, same, reached, keys, added, fun k => ?_, verdict, fun e => ?_, ?_⟩
  · rw [addNode_snd_ne, added]
  · rw [addEdge_snd_ne, verdict]
  · rw [sound.view_eq wellFormed]
    exact shows

end IndexedGraph

end LayerGraph
