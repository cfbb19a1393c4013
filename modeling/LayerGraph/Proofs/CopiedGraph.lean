import LayerGraph.Proofs.DeclaredGraph
import LayerGraph.Proofs.KeyText
import LayerGraph.Proofs.StoreAnswers
import LayerGraph.Proofs.SyncOutcome
import Mathlib

/-!
# Graphs that were copied without failures

A run without failures that removes stale rows leaves a mirror of the graph it copies, so what is
asked about nodes and edges has the same answer there as in the graph. All keys of a graph that is
built from records can be read back from their texts, so nothing of it is left out of an answer.

Main statements:
1. `IsBuilt.isReadable`: the names of nodes are not blank.
2. `Copied.mirrors`, `Mirrors.depends_iff`: what such a run leaves in a store.
3. `answers_sync`: the store that carried the run out answers from what it left.
-/

namespace LayerGraph

/-! ## Graphs that are built -/

theorem Text.isBlankText_trim (s : String) : isBlankText (trim s) = isBlankText s := by
  obtain ⟨left, right, parts, hleft, hright⟩ := exists_trimChars s.toList
  unfold isBlankText trim
  rw [String.toList_ofList]
  conv_rhs => rw [parts, List.all_append, List.all_append, hleft, hright, Bool.true_and, Bool.and_true]

namespace Build

/-- The graph has been built from records, and orders may have been given to its nodes. -/
def IsBuilt (g : Graph) : Prop :=
  ∃ rs order?, g = (ofRecords rs).graph.withOrders order?

variable {g : Graph} {k : NodeKey}

theorem IsBuilt.wellFormed (h : IsBuilt g) : g.WellFormed := by
  obtain ⟨rs, order?, rfl⟩ := h
  exact (reachable_ofRecords rs).wellFormed.withOrders order?

/-- A graph is built if it follows from what records declare. -/
theorem isBuilt_of_declarations {rs : List EntityRecord} {ds : List Declaration}
    (declared : declarations rs = ds) (order? : NodeKey → Option Int)
    (built : g = ((ds.flatMap Declaration.links).foldl addLink
      { graph := nodesOf ds }).graph.withOrders order?) : IsBuilt g := by
  refine ⟨rs, order?, ?_⟩
  rw [ofRecords_eq, built, declared]
  exact congrArg (Graph.withOrders · order?) (graph_foldl_addLink _ rfl)

theorem isReadable_of_declares {rs : List EntityRecord} (h : Declares rs k) :
    StoredGraph.isReadable k = true := by
  obtain ⟨r, -, named, rfl⟩ := h
  unfold StoredGraph.isReadable EntityRecord.key
  rwa [Text.isBlankText_trim]

/-- Every key of a graph that is built can be read back from its text. -/
theorem IsBuilt.isReadable (h : IsBuilt g) (hk : k ∈ g.keys) : StoredGraph.isReadable k = true := by
  obtain ⟨rs, order?, rfl⟩ := h
  rw [Graph.keys_withOrders, mem_keys_ofRecords] at hk
  rcases hk with declared | ⟨source, kind, target, refers, -, rfl⟩
  · exact isReadable_of_declares declared
  · unfold StoredGraph.isReadable
    rw [Text.isBlankText_trim, Bool.not_eq_true', ← Bool.not_eq_true, ← Text.trim_eq_empty_iff]
    exact refers.2.1

end Build

/-! ## What stored graphs hold -/

namespace StoredGraph

/-- At least one stored edge runs from `u` to `v`. -/
def Depends (m : StoredGraph) (u v : NodeKey) : Prop :=
  ∃ e ∈ m.edgeList, e.source = u ∧ e.target = v

end StoredGraph

namespace Sync

open StoredGraph

variable {run : String} {g : Graph} {m : StoredGraph} {u v k : NodeKey}

theorem Mirrors.mem_edgeList (h : Mirrors run g m) {e : Edge} : e ∈ m.edgeList ↔ e ∈ g.edges := by
  have edges := h.edges.map EdgeRow.edge
  rw [List.map_map] at edges
  rw [edgeList, edges.mem_iff]
  exact iff_of_eq (congrArg (e ∈ ·) (List.map_id g.edges))

theorem Mirrors.mem_keys (h : Mirrors run g m) : k ∈ m.keys ↔ k ∈ g.keys := by
  have nodes := h.nodes.map fun r => r.node.key
  rw [List.map_map] at nodes
  rw [StoredGraph.keys, nodes.mem_iff]
  rfl

theorem Mirrors.depends_iff (h : Mirrors run g m) : m.Depends u v ↔ g.Depends u v :=
  exists_congr fun _ => and_congr_left fun _ => h.mem_edgeList

/-- What a complete run leaves that removes the rows of other runs. It may come upon any rows with
different keys that are not its own, and its writes may come in any orders. -/
inductive Copied (run : String) (g : Graph) (m : StoredGraph) : Prop
  | intro {limits : SyncLimits} {faults : Faults} {nodes : List Node} {edges : List Edge}
      {before : Tables} (keyed : before.Keyed) (fresh : before.Fresh run)
      (hnodes : nodes.Perm g.nodes) (hedges : edges.Perm g.edges)
      (prunes : limits.pruneStale = true) (pruned : faults.prune? = none)
      (complete : (runIn limits faults run nodes edges before).1.isComplete = true)
      (leaves : (runIn limits faults run nodes edges before).2 = m.tables)

/-- What a complete run leaves is a mirror of the graph. -/
theorem Copied.mirrors (h : Copied run g m) (hg : g.WellFormed) : Mirrors run g m := by
  obtain ⟨keyed, fresh, hnodes, hedges, prunes, pruned, complete, leaves⟩ := h
  rw [isComplete_runIn, isComplete_reportOf hnodes hedges] at complete
  refine mirrors_of_tables ?_
  rw [← leaves]
  exact ((outcome_runIn hg hnodes hedges keyed fresh).mirrors ⟨complete, prunes, pruned⟩).1

end Sync

/-! ## Stores after a run -/

namespace GraphStore

variable {α : Type} {s s' : GraphStore} {disk disk' : Disk} {timeout : Duration}
  {calls : List StoreCall} {call : StoreCall} {before m : StoredGraph} {limits : SyncLimits}
  {run : String} {g : Graph}

theorem connect_of_ask {answer : StoredGraph → α} {a : α}
    (h : s.ask disk timeout call answer = (.ok a, s', disk')) :
    ∃ m, s.connect disk timeout = (.ok m, s', disk') ∧ a = answer m := by
  unfold ask at h
  cases hfault : s.callFault? timeout call with
  | some fault =>
    rw [hfault] at h
    cases h
  | none =>
    rw [hfault] at h
    rcases opens : s.connect disk timeout with ⟨result, s₁, disk₁⟩
    rw [opens] at h
    cases result with
    | error fault => cases h
    | ok m =>
      dsimp only at h
      split at h
      · cases h
        exact ⟨m, rfl, rfl⟩
      · cases h
        exact ⟨m, rfl, rfl⟩
      · cases h

/-- An open store gives the graph that it was told to keep. -/
theorem connect_keep (opens : s.connect disk timeout = (.ok before, s', disk'))
    (keeps : s'.place ≠ .nowhere) (after : Duration) :
    (s'.keep disk' m).1.connect (s'.keep disk' m).2 after =
      (.ok m, (s'.keep disk' m).1, (s'.keep disk' m).2) := by
  obtain ⟨place, -⟩ | place | ⟨name, o, place, -⟩ := (cases_of_connect opens).2
  · exact absurd place keeps
  · simp only [keep, place, connect]
  · simp only [keep, place, connect]

theorem callFault?_keep (after : Duration) (call : StoreCall) :
    (s.keep disk m).1.callFault? after call = s.callFault? after call := by
  unfold keep
  split
  · rfl
  · rfl
  · rfl

theorem not_file_set_database (disk : Disk) (p : Place) (m : StoredGraph) (isLogged : Bool)
    (content : ByteArray) :
    (disk.set p (.database m isLogged)).entryAt? p ≠ some (.file content) := by
  rw [Disk.entryAt?_set]
  split
  · simp
  · simp

/-- A store that can be looked into still can be when it has written its file. -/
theorem lookFault?_keep (h : s.lookFault? disk = none) :
    (s.keep disk m).1.lookFault? (s.keep disk m).2 = none := by
  cases place : s.place with
  | opened name o =>
    simp only [lookFault?, place] at h
    simp only [keep, place, lookFault?]
    rcases found : disk.entryAt? o.place with _ | _ | content | _ | _
    case some.file =>
      simp only [found, if_true] at h ⊢
      exact h
    -- what lies at the place otherwise is the database that has just been written
    all_goals
      simp only [Bool.false_eq_true, if_false]
      split
      · next written => exact absurd written (not_file_set_database disk o.place m o.isLogged _)
      · simp only [Bool.and_false, Bool.false_and, Bool.false_eq_true, if_false]
  | nowhere => simp only [keep, place, lookFault?]
  | memory kept => simp only [keep, place, lookFault?]
  | database name l => simp only [keep, place, lookFault?]
  | refused name fault => simp only [keep, place, lookFault?]

/-- The store that carried out a complete run answers from what the run left. -/
theorem answers_sync (keyed : before.Keyed) (fresh : Sync.Fresh run before)
    (answered : s.ask disk limits.timeout .ping id = (.ok before, s', disk'))
    (keeps : s'.place ≠ .nowhere) (prunes : limits.pruneStale = true)
    (pruned : (s'.syncFaults disk' limits.timeout).prune? = none)
    (complete : (s.sync disk limits run g).1.isComplete = true)
    (faultless : ∀ call ∈ calls, s.callFault? timeout call = none) :
    ∃ m, Sync.Copied run g m ∧
      (s.sync disk limits run g).2.1.Answers (s.sync disk limits run g).2.2 timeout calls m := by
  obtain ⟨found, opens, rfl⟩ := connect_of_ask answered
  have runs : s.sync disk limits run g =
      ((Sync.run limits (s'.syncFaults disk' limits.timeout) run g before).1,
        s'.keep disk' (Sync.run limits (s'.syncFaults disk' limits.timeout) run g before).2) := by
    unfold sync
    rw [answered]
  rw [runs] at complete ⊢
  refine ⟨(Sync.run limits (s'.syncFaults disk' limits.timeout) run g before).2, ?_, ?_⟩
  · have same : Sync.runIn limits (s'.syncFaults disk' limits.timeout) run g.nodes g.sortedEdges
        before.tables = _ := Sync.runIn_tables
    refine .intro (Sync.keyed_tables keyed) (Sync.fresh_tables fresh) (List.Perm.refl _)
      (Sorted.perm_sort _) prunes pruned ?_ (congrArg Prod.snd same)
    exact (congrArg (·.1.isComplete) same).trans complete
  constructor
  · intro call hcall
    rw [callFault?_keep, callFault?_of_connect opens]
    exact faultless call hcall
  · refine ⟨_, _, connect_keep opens keeps timeout, lookFault?_keep ?_⟩
    -- a store that can remove rows can be looked into
    have writes := ((Option.orElse_eq_none _ _).1 pruned).2
    exact ((Option.orElse_eq_none _ _).1 writes).1

/-- Classes on two circles that share an edge, of which one pair is joined twice; a page and a table
that are on neither. -/
def circleRecords : List EntityRecord :=
  [{ kind := .classDef, name := "A", parentClass := some "B", usesClasses := ["B"] },
   { kind := .classDef, name := "B", usesTables := ["T"], usesClasses := ["A", "C"] },
   { kind := .classDef, name := "C", usesClasses := ["A"] },
   { kind := .page, name := "P", usesTables := ["T"], usesClasses := ["A", "C"] },
   { kind := .table, name := "T" }]

/-- The graph of these records. -/
def circleGraph : Graph where
  nodes := [⟨⟨.table, "T"⟩, 0⟩, ⟨⟨.classDef, "A"⟩, 1⟩, ⟨⟨.classDef, "B"⟩, 1⟩, ⟨⟨.classDef, "C"⟩, 1⟩,
    ⟨⟨.page, "P"⟩, 1⟩]
  edges := [⟨⟨.classDef, "A"⟩, ⟨.classDef, "B"⟩, .inherits⟩,
    ⟨⟨.classDef, "A"⟩, ⟨.classDef, "B"⟩, .usesClass⟩,
    ⟨⟨.classDef, "B"⟩, ⟨.table, "T"⟩, .usesTable⟩,
    ⟨⟨.classDef, "B"⟩, ⟨.classDef, "A"⟩, .usesClass⟩,
    ⟨⟨.classDef, "B"⟩, ⟨.classDef, "C"⟩, .usesClass⟩,
    ⟨⟨.classDef, "C"⟩, ⟨.classDef, "A"⟩, .usesClass⟩,
    ⟨⟨.page, "P"⟩, ⟨.table, "T"⟩, .usesTable⟩,
    ⟨⟨.page, "P"⟩, ⟨.classDef, "A"⟩, .usesClass⟩,
    ⟨⟨.page, "P"⟩, ⟨.classDef, "C"⟩, .usesClass⟩]

theorem isBuilt_circleGraph : Build.IsBuilt circleGraph := by
  have declared : Build.declarations circleRecords = [{ key := ⟨.table, "T"⟩ },
      { key := ⟨.classDef, "A"⟩, parent := some "B", classes := ["B"] },
      { key := ⟨.classDef, "B"⟩, tables := ["T"], classes := ["A", "C"] },
      { key := ⟨.classDef, "C"⟩, classes := ["A"] },
      { key := ⟨.page, "P"⟩, tables := ["T"], classes := ["A", "C"] }] := by cbv
  exact Build.isBuilt_of_declarations declared
    (fun k => some (if k.type = .table then 0 else 1)) (by rfl)

/-- A copy of this graph. -/
def circleCopy : StoredGraph where
  nodes := circleGraph.nodes.map (⟨·, "run"⟩)
  edges := circleGraph.edges.map (⟨·, "run"⟩)

/-- A complete run from an empty store in memory leaves a copy there. -/
theorem answers_copy {report : SyncReport}
    (leaves : GraphStore.sync { place := .memory {} } {} {} "run" g =
      (report, { place := .memory m }, {})) (complete : report.isComplete = true)
    (calls : List StoreCall) (timeout : Duration) :
    Sync.Copied "run" g m ∧ GraphStore.Answers { place := .memory m } {} timeout calls m := by
  have landed : (GraphStore.sync { place := .memory {} } {} {} "run" g).1.isComplete = true := by
    rw [leaves]
    exact complete
  have fresh : Sync.Fresh "run" {} := ⟨by simp, by simp⟩
  obtain ⟨m, copied, answers⟩ := answers_sync (StoredGraph.keyed_foldl_after []) fresh rfl (by simp)
    rfl rfl landed fun call (_ : call ∈ calls) => (rfl : _ = none)
  rw [leaves] at answers
  obtain ⟨s', disk', opens, -⟩ := answers.connects
  cases opens
  exact ⟨copied, answers⟩

/-- A run that copies the graph into a store in memory leaves this copy there. -/
theorem answers_circleCopy (calls : List StoreCall) (timeout : Duration) :
    (GraphStore.sync { place := .memory {} } {} {} "run" circleGraph).2.1 =
        { place := .memory circleCopy } ∧
      Sync.Copied "run" circleGraph circleCopy ∧
      GraphStore.Answers { place := .memory circleCopy } {} timeout calls circleCopy := by
  have leaves : GraphStore.sync { place := .memory {} } {} {} "run" circleGraph =
      ({ run := "run", nodesSynced := 5, edgesSynced := 9 }, { place := .memory circleCopy }, {}) := by
    cbv
  exact ⟨by rw [leaves], answers_copy leaves rfl calls timeout⟩

end GraphStore

end LayerGraph
