import LayerGraph.Proofs.Circuits
import LayerGraph.Proofs.OrderOfGraph

/-!
# Circuits inside a layer

Nodes of different layers may depend on each other in a circle: the layers are placed one after the
other, and the order needs no further decision. It gives up a dependency just where a circle stays in
one layer. There an order that respects all dependencies of the layer cannot exist, and wherever a
dependency is given up it lies on such a circle.

Main statements:
1. `Sound.onCircuit_move`: a dependency that is given up lies on a circuit of the layer.
2. `not_hasLayerCircuit`: where an order respects all dependencies inside the layers, no layer has a
   circuit.
3. `isApproximate_iff`: an order is approximate just when some layer has a circuit.
-/

namespace LayerGraph

open Places

/-! ## Dependencies inside a layer -/

namespace Graph

variable {g : Graph} {u v : NodeKey}

/-- `u` depends on `v`, and both are in one layer. -/
def DependsWithin (g : Graph) (u v : NodeKey) : Prop :=
  g.Depends u v ∧ u.layer = v.layer

/-- Some node depends on itself, through others of its layer only. -/
def HasLayerCircuit (g : Graph) : Prop :=
  ∃ k, Relation.TransGen g.DependsWithin k k

theorem HasLayerCircuit.hasCircuit (h : g.HasLayerCircuit) : g.HasCircuit := by
  obtain ⟨k, circuit⟩ := h
  exact ⟨k, Relation.TransGen.mono (fun _ _ huv => huv.1) k k circuit⟩

/-- A graph with a circuit lists cycles. -/
theorem WellFormed.hasCycles (h : g.WellFormed) (circuit : g.HasCircuit) : g.hasCycles = true := by
  obtain ⟨pick, -, broken⟩ := h.exists_links
  rw [Graph.hasCycles, Bool.not_eq_true', List.isEmpty_eq_false_iff]
  intro hnil
  obtain ⟨k, circuit⟩ := circuit
  -- without listed cycles nothing is given up, and the circuit would stay
  refine broken ⟨k, Relation.TransGen.mono (fun u v huv => ?_) k k circuit⟩
  rw [hnil]
  exact depends_without_iff.2 ⟨huv, List.not_mem_nil⟩

/-- An order that respects all dependencies inside the layers leaves no room for a circuit. -/
theorem not_hasLayerCircuit {ks : List NodeKey} (nodup : ks.Nodup)
    (respects : ∀ u v, g.DependsWithin u v → Before ks v u) : ¬ g.HasLayerCircuit := by
  rintro ⟨k, circuit⟩
  -- what a node depends on has an earlier place
  have earlier : ∀ v, Relation.TransGen g.DependsWithin k v → ks.idxOf v < ks.idxOf k := by
    intro v hkv
    induction hkv with
    | single huv => exact idxOf_lt_of_before nodup (respects _ _ huv)
    | tail _ huv ih => exact (idxOf_lt_of_before nodup (respects _ _ huv)).trans ih
  exact Nat.lt_irrefl _ (earlier k circuit)

/-- A table and a class that depend on each other across their layers, a class that the latter
depends on inside its layer, and one more class. -/
def crossing : Graph :=
  let t : NodeKey := ⟨.table, "T"⟩
  let a : NodeKey := ⟨.classDef, "A"⟩
  let b : NodeKey := ⟨.classDef, "B"⟩
  let c : NodeKey := ⟨.classDef, "C"⟩
  ofSteps [.addNode a, .addNode t, .addNode c, .addNode b, .addEdge ⟨a, c, .inherits⟩,
    .addEdge ⟨t, a, .usesClass⟩, .addEdge ⟨a, t, .usesTable⟩]

theorem dependsWithin_crossing (h : crossing.DependsWithin u v) :
    u = ⟨.classDef, "A"⟩ ∧ v = ⟨.classDef, "C"⟩ := by
  obtain ⟨⟨e, he, rfl, rfl⟩, same⟩ := h
  have only : ∀ e ∈ crossing.edges, e.source.layer = e.target.layer →
      e.source = ⟨.classDef, "A"⟩ ∧ e.target = ⟨.classDef, "C"⟩ := by
    decide
  exact only e he same

/-- The two nodes that depend on each other there are in different layers. -/
theorem not_hasLayerCircuit_crossing : ¬ crossing.HasLayerCircuit := by
  have nodup : ([⟨.classDef, "C"⟩, ⟨.classDef, "A"⟩] : List NodeKey).Nodup := by decide
  refine not_hasLayerCircuit nodup fun u v huv => ?_
  obtain ⟨rfl, rfl⟩ := dependsWithin_crossing huv
  exact List.Sublist.refl _

end Graph

/-! ## What is given up -/

namespace Draft

variable {g : Graph} {d d' : Draft} {members cycle : List NodeKey} {u v : NodeKey}

/-- `u` depends on `v`, and both are members. -/
def Inside (g : Graph) (members : List NodeKey) (u v : NodeKey) : Prop :=
  u ∈ members ∧ v ∈ members ∧ g.Depends u v

theorem Sound.inside_of_mem (h : Sound g members d) (hv : v ∈ d.waitsFor u) :
    Inside g members u v := by
  obtain ⟨hu, hv, hdep, -⟩ := (h.mem_waitsFor u v).1 hv
  exact ⟨h.mem_members.2 (.inr hu), h.mem_members.2 (.inr hv), hdep⟩

/-- A cycle of first links leads back from the end of each link to its start. -/
theorem Sound.transGen_of_next (h : Sound g members d)
    (first : Search.FirstLinks d.waitsFor cycle) (link : Next cycle u v) :
    Relation.TransGen (Inside g members) v u :=
  transGen_of_mem (fun a b hab => h.inside_of_mem (List.mem_of_head? (first a b hab)))
    link.right_mem link.left_mem

/-- Each dependency that was given up lies on a circuit among the members. -/
def OnCircuit (g : Graph) (members : List NodeKey) (d : Draft) : Prop :=
  ∀ u v, (u, v) ∈ d.dropped → Relation.TransGen (Inside g members) v u

theorem Sound.onCircuit_move (h : Sound g members d) (m : Move g d d')
    (onCircuit : OnCircuit g members d) : OnCircuit g members d' := by
  cases m with
  | place _ _ => exact onCircuit
  | drop first link _ =>
    intro u v hmem
    rcases List.mem_append.1 hmem with hmem | hmem
    · exact onCircuit u v hmem
    · obtain ⟨rfl, rfl⟩ := Prod.mk.inj (List.mem_singleton.1 hmem)
      exact h.transGen_of_next first link

theorem onCircuit_ofMembers (hg : g.WellFormed) (nodup : members.Nodup) :
    OnCircuit g members (ofMembers g members) :=
  (sound_start nodup).run_induction hg nodup (fun _ _ h m => h.onCircuit_move m) _
    fun _ _ hmem => absurd hmem List.not_mem_nil

end Draft

namespace MigrationOrder

variable {g : Graph} {u v : NodeKey}

theorem dependsWithin_of_inside {layer : Option Layer}
    (h : Draft.Inside g (membersOf g layer) u v) : g.DependsWithin u v := by
  obtain ⟨hu, hv, hdep⟩ := h
  exact ⟨hdep, (mem_membersOf.1 hu).2.trans (mem_membersOf.1 hv).2.symm⟩

/-- A dependency that is reported lies on a circuit of its layer. -/
theorem hasLayerCircuit_of_mem_dropped (hg : g.WellFormed) {e : Dropped}
    (he : e ∈ (ofGraph g).dropped) : g.HasLayerCircuit := by
  have hmem := mem_dropped.1 he
  have members_nodup := nodup_membersOf hg e.layer
  have back := Draft.onCircuit_ofMembers hg members_nodup e.source e.target hmem
  have hdep := (Draft.ofMembers_spec hg members_nodup).1.dropped_depends _ _ hmem
  refine ⟨e.source, .head (dependsWithin_of_inside hdep) ?_⟩
  exact Relation.TransGen.mono (fun _ _ hab => dependsWithin_of_inside hab) _ _ back

/-- An order without reports respects every dependency inside a layer. -/
theorem before_of_dropped_eq_nil (hg : g.WellFormed) (hnil : (ofGraph g).dropped = [])
    (h : g.DependsWithin u v) : Before (ofGraph g).sequence v u := by
  refine before_of_not_dropped hg h.1 h.2 fun hmem => ?_
  rw [hnil] at hmem
  exact absurd hmem List.not_mem_nil

theorem dropped_eq_nil_iff (hg : g.WellFormed) :
    (ofGraph g).dropped = [] ↔ ¬ g.HasLayerCircuit := by
  constructor
  · exact fun hnil => Graph.not_hasLayerCircuit (nodup_sequence hg)
      fun _ _ h => before_of_dropped_eq_nil hg hnil h
  · exact fun hnone => List.eq_nil_iff_forall_not_mem.2
      fun _ he => hnone (hasLayerCircuit_of_mem_dropped hg he)

/-- The order is approximate just when there is a circuit whose nodes are all in one layer, and then
the graph lists cycles. -/
theorem isApproximate_iff (h : g.Reachable) :
    ((ofGraph g).isApproximate = true ↔ g.HasLayerCircuit) ∧
    ((ofGraph g).isApproximate = true → g.hasCycles = true) := by
  have hg := h.wellFormed
  have approximate : (ofGraph g).isApproximate = true ↔ g.HasLayerCircuit := by
    rw [isApproximate, Bool.not_eq_true', List.isEmpty_eq_false_iff, ne_eq, dropped_eq_nil_iff hg,
      not_not]
  exact ⟨approximate, fun happrox => hg.hasCycles (approximate.1 happrox).hasCircuit⟩

/-- Two overlapping cycles of classes make the order approximate. A cycle across layers does not,
though it is listed. -/
theorem isApproximate_overlapping_crossing :
    Graph.overlapping.Reachable ∧ Graph.overlapping.HasLayerCircuit ∧
    Graph.overlapping.hasCycles = true ∧
    Graph.crossing.Reachable ∧ (ofGraph Graph.crossing).isApproximate = false ∧
    Graph.crossing.hasCycles = true := by
  have reachable : Graph.overlapping.Reachable := Graph.reachable_ofSteps _
  have reachable' : Graph.crossing.Reachable := Graph.reachable_ofSteps _
  have approximate : (ofGraph Graph.overlapping).isApproximate = true := by cbv
  have listed : Graph.crossing.hasCycles = true := by cbv
  obtain ⟨circuit_iff, lists⟩ := isApproximate_iff reachable
  refine ⟨reachable, circuit_iff.1 approximate, lists approximate, reachable', ?_, listed⟩
  rw [Bool.eq_false_iff, ne_eq, (isApproximate_iff reachable').1]
  exact Graph.not_hasLayerCircuit_crossing

end MigrationOrder

end LayerGraph
