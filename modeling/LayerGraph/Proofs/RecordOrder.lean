import LayerGraph.Pipeline
import LayerGraph.Proofs.DeclaredGraph
import LayerGraph.Proofs.SameGraph

/-!
# The order of records does not matter

Records that are given in another order declare the same entities and relations, so they are built
into a graph with the same nodes and edges. It grows in another order, but nothing that is answered
about it depends on that.

Main statements:
1. `same_ofRecords`: the graphs that are built differ in the order of growth only.
2. `warnings_perm`: the same warnings are given.
3. `ofRecords_perm`: so are cycles, order, assignments and fingerprint.
-/

namespace LayerGraph

/-! ## What permuted records declare -/

variable {rs rs' : List EntityRecord} {kind : EdgeKind} {target : String} {k : NodeKey}

theorem declares_congr (h : rs.Perm rs') : Declares rs k ↔ Declares rs' k := by
  simp only [Declares, h.mem_iff]

theorem resolves_congr (h : rs.Perm rs') :
    Resolves rs kind target k ↔ Resolves rs' kind target k := by
  simp only [Resolves, declares_congr h]

theorem refers_congr (h : rs.Perm rs') : Refers rs k kind target ↔ Refers rs' k kind target := by
  simp only [Refers, Relates, h.mem_iff]

namespace Build

/-! ## The graphs that are built -/

theorem edges_perm (h : rs.Perm rs') :
    (ofRecords rs).graph.edges.Perm (ofRecords rs').graph.edges := by
  refine (List.perm_ext_iff_of_nodup (reachable_ofRecords rs).wellFormed.edges_nodup
    (reachable_ofRecords rs').wellFormed.edges_nodup).2 fun e => ?_
  rw [mem_edges_ofRecords, mem_edges_ofRecords]
  exact exists_congr fun target => and_congr (refers_congr h) (resolves_congr h)

theorem keys_perm (h : rs.Perm rs') :
    (ofRecords rs).graph.keys.Perm (ofRecords rs').graph.keys := by
  refine (List.perm_ext_iff_of_nodup (reachable_ofRecords rs).wellFormed.keys_nodup
    (reachable_ofRecords rs').wellFormed.keys_nodup).2 fun k => ?_
  rw [mem_keys_ofRecords, mem_keys_ofRecords]
  simp only [declares_congr h, refers_congr h]

/-- No node has an order yet, so the nodes are given by their keys. -/
theorem nodes_ofRecords (rs : List EntityRecord) :
    (ofRecords rs).graph.nodes = (ofRecords rs).graph.keys.map fun k => { key := k } := by
  have unordered := (resolved_ofRecords rs).unordered
  rw [Graph.keys, List.map_map, List.map_congr_left, List.map_id]
  intro n hn
  show ({ key := n.key } : Node) = n
  rw [← unordered n hn]

theorem same_ofRecords (h : rs.Perm rs') :
    Graph.Same (ofRecords rs).graph (ofRecords rs').graph := by
  refine ⟨?_, edges_perm h⟩
  rw [nodes_ofRecords, nodes_ofRecords]
  exact (keys_perm h).map _

/-! ## The warnings -/

theorem duplicateWarnings_eq (h : rs.Perm rs') : duplicateWarnings rs = duplicateWarnings rs' := by
  have keys_perm : (namedKeys rs).Perm (namedKeys rs') :=
    (h.filter EntityRecord.isNamed).map EntityRecord.key
  unfold duplicateWarnings sharedKeys
  rw [Sorted.distinct_eq_of_perm keys_perm]
  simp only [keys_perm.count_eq]

theorem warnings_perm (h : rs.Perm rs') : (ofRecords rs).warnings.Perm (ofRecords rs').warnings := by
  rw [(resolved_ofRecords rs).warnings, (resolved_ofRecords rs').warnings, duplicateWarnings_eq h]
  refine List.Perm.append (List.Perm.append_right _ ?_) ?_
  · exact (h.filter _).map _
  · exact ((edges_perm h).filter _).map _

/-! ## Whatever is answered -/

/-- Two builds give the same answers: the nodes with their layers, the edges, the warnings up to
their order, and all that follows from the graph. -/
structure SameAnswers (out out' : BuildOutput) : Prop where
  keys : out.graph.sortedKeys = out'.graph.sortedKeys
  layers : out.graph.sortedNodes.map (fun n => (n.key, n.layer)) =
    out'.graph.sortedNodes.map fun n => (n.key, n.layer)
  edges : out.graph.sortedEdges = out'.graph.sortedEdges
  warnings : out.warnings.Perm out'.warnings
  cycles : out.graph.cycles = out'.graph.cycles
  order : MigrationOrder.ofGraph out.graph = MigrationOrder.ofGraph out'.graph
  assignments : (OrderedGraph.ofBuild out).graph.assignments =
    (OrderedGraph.ofBuild out').graph.assignments
  fingerprint : (OrderedGraph.ofBuild out).graph.fingerprint =
    (OrderedGraph.ofBuild out').graph.fingerprint

theorem sameAnswers_of_perm (h : rs.Perm rs') : SameAnswers (ofRecords rs) (ofRecords rs') := by
  have same := same_ofRecords h
  have wellFormed := (reachable_ofRecords rs).wellFormed
  have ordered : Graph.Same (OrderedGraph.ofBuild (ofRecords rs)).graph
      (OrderedGraph.ofBuild (ofRecords rs')).graph := by
    show Graph.Same ((MigrationOrder.ofGraph _).apply _) ((MigrationOrder.ofGraph _).apply _)
    rw [same.order_eq]
    exact same.apply _
  have ordered_wellFormed : (OrderedGraph.ofBuild (ofRecords rs)).graph.WellFormed :=
    wellFormed.apply _
  constructor
  · exact same.sortedKeys_eq
  · rw [same.sortedNodes_eq wellFormed]
  · exact same.sortedEdges_eq
  · exact warnings_perm h
  · exact same.cycles_eq
  · exact same.order_eq
  · exact ordered.assignments_eq
  · exact congrArg (fun text : String => Digest.sha256Hex text.toUTF8)
      (ordered.fingerprintText_eq ordered_wellFormed)

/-- The order of the records shows in no answer, so neither does the order in which the records of
the four kinds have been read. -/
theorem ofRecords_perm (h : rs.Perm rs') :
    SameAnswers (ofRecords rs) (ofRecords rs') ∧
    ∀ (kinds : List EntityKind) (read : EntityKind → List EntityRecord),
      kinds.Perm EntityKind.all →
      SameAnswers (ofRecords (kinds.flatMap read)) (ofRecords (EntityKind.all.flatMap read)) :=
  ⟨sameAnswers_of_perm h, fun _ read hkinds => sameAnswers_of_perm (hkinds.flatMap_right read)⟩

/-- Two records of a class name different unresolved classes, and a page depends on itself and on the
class. -/
def scattered : List EntityRecord :=
  [{ kind := .classDef, name := "A", usesClasses := ["Y"] },
   { kind := .page, name := "P", usesClasses := [" A", "P"] },
   { kind := .classDef, name := " A ", parentClass := some "X" }]

/-- The other way round, both give one fingerprint. -/
theorem ofRecords_perm_scattered :
    scattered ≠ scattered.reverse ∧ scattered.Perm scattered.reverse ∧
    SameAnswers (ofRecords scattered) (ofRecords scattered.reverse) := by
  have perm : scattered.Perm scattered.reverse := (List.reverse_perm _).symm
  exact ⟨by decide, perm, (ofRecords_perm perm).1⟩

end Build

end LayerGraph
