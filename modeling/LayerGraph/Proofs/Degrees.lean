import LayerGraph.Proofs.CopiedGraph
import LayerGraph.Proofs.SameGraph

/-!
# Busy nodes and unused ones

A stored graph counts edges by the keys that its rows carry, and a graph counts them in its own
list. In a mirror of the graph both counts are the same, so a query for hubs tells the degrees of the
graph, and a query for dead code the nodes that nothing in the graph uses. The stored graph puts its
answers in the order of texts, where `Class:B` comes before `Table:A`; a query puts them in key order
again.

Main statements:
1. `StoredGraph.mem_degreeCounts`, `StoredGraph.mem_withoutIncoming`: what a stored graph lists.
2. `Query.mem_hubs`, `Query.pairwise_hubs`: what a query for hubs makes of it.
3. `degrees_exact`: what both queries list of a graph that was copied.
-/

namespace LayerGraph

open Sorted (Ascending)

/-! ## The busiest first -/

section Busiest

variable {α κ : Type} [Ord κ] [Std.TransOrd κ] [Std.LawfulEqOrd κ]

/-- Whether the number of the first thing is larger, or its label comes first where the numbers are
equal. -/
def busierFirst (total : α → Nat) (label : α → κ) (a b : α) : Bool :=
  total b < total a || (total a = total b && Sorted.le (label a) (label b))

/-- Things with different labels, sorted by falling numbers and then by label. -/
theorem pairwise_busierFirst (total : α → Nat) (label : α → κ) {xs : List α}
    (distinct : (xs.map label).Nodup) : (xs.mergeSort (busierFirst total label)).Pairwise
      fun a b => total b < total a ∨ (total a = total b ∧ compare (label a) (label b) = .lt) := by
  have sorted : (xs.mergeSort (busierFirst total label)).Pairwise
      fun a b => busierFirst total label a b = true := by
    refine List.pairwise_mergeSort (fun a b c => ?_) (fun a b => ?_) xs
    · simp only [busierFirst, Bool.or_eq_true, Bool.and_eq_true, decide_eq_true_eq]
      rintro (hab | ⟨hab, kab⟩) (hbc | ⟨hbc, kbc⟩)
      · exact .inl (by omega)
      · exact .inl (by omega)
      · exact .inl (by omega)
      · exact .inr ⟨hab.trans hbc, Sorted.le_trans (label a) (label b) (label c) kab kbc⟩
    · have either := Sorted.le_total (label a) (label b)
      simp only [busierFirst, Bool.or_eq_true, Bool.and_eq_true, decide_eq_true_eq] at either ⊢
      rcases Nat.lt_trichotomy (total a) (total b) with hlt | heq | hgt
      · exact .inr (.inl hlt)
      · exact either.imp (fun h => .inr ⟨heq, h⟩) fun h => .inr ⟨heq.symm, h⟩
      · exact .inl (.inl hgt)
  have apart := ((List.mergeSort_perm xs (busierFirst total label)).map label).nodup_iff.2 distinct
  refine (sorted.and (List.pairwise_map.1 apart)).imp fun {a b} both => ?_
  obtain ⟨hle, hne⟩ := both
  simp only [busierFirst, Bool.or_eq_true, Bool.and_eq_true, decide_eq_true_eq] at hle
  exact hle.imp_right fun hle => ⟨hle.1, Sorted.lt_of_le_of_ne hle.2 hne⟩

end Busiest

/-! ## Degrees in a stored graph -/

namespace StoredGraph

variable {m : StoredGraph} {least : Nat} {types : List NodeType} {k : NodeKey}

/-- Numbers that a signed word cannot hold are taken for smaller ones, and no others change. -/
theorem signedWord_le (n : Nat) : signedWord n ≤ n := by
  unfold signedWord Int.bmod UInt64.size
  dsimp only
  split
  · omega
  · omega

theorem mem_degreeCounts {c : DegreeCount} : c ∈ m.degreeCounts least ↔
    c.key ∈ m.keys ∧ isReadable c.key = true ∧ c.incoming = m.incoming c.key ∧
      c.outgoing = m.outgoing c.key ∧
      signedWord least ≤ ((c.incoming + c.outgoing : Nat) : Int) := by
  unfold degreeCounts
  simp only [List.mem_filter, List.mem_mergeSort, List.mem_map, decide_eq_true_eq]
  constructor
  · rintro ⟨⟨⟨k, hk, rfl⟩, busy⟩, readable⟩
    exact ⟨hk, readable, rfl, rfl, busy⟩
  · rintro ⟨hk, readable, incoming, outgoing, busy⟩
    refine ⟨⟨⟨c.key, hk, ?_⟩, busy⟩, readable⟩
    rw [← incoming, ← outgoing]

theorem nodup_counts (h : m.Keyed) : ((m.keys.map fun k =>
    DegreeCount.mk k (m.incoming k) (m.outgoing k)).map DegreeCount.key).Nodup := by
  rw [List.map_map]
  exact (List.map_id m.keys).symm ▸ h.nodes

theorem nodup_degreeCounts (h : m.Keyed) (least : Nat) :
    ((m.degreeCounts least).map DegreeCount.key).Nodup := by
  unfold degreeCounts
  refine List.Nodup.sublist (List.filter_sublist.map _) ?_
  exact ((List.mergeSort_perm _ _).map _).nodup_iff.2
    ((nodup_counts h).sublist (List.filter_sublist.map _))

theorem mem_withoutIncoming : k ∈ m.withoutIncoming types ↔
    k.type ∈ types ∧ k ∈ m.keys ∧ m.incoming k = 0 ∧ isReadable k = true := by
  unfold withoutIncoming
  simp only [List.mem_flatMap, List.mem_filter, mem_byText, Bool.and_eq_true, decide_eq_true_eq]
  constructor
  · rintro ⟨t, ht, ⟨hk, rfl, unused⟩, readable⟩
    exact ⟨ht, hk, unused, readable⟩
  · rintro ⟨ht, hk, unused, readable⟩
    exact ⟨k.type, ht, ⟨hk, rfl, unused⟩, readable⟩

theorem nodup_withoutIncoming (h : m.Keyed) (distinct : types.Nodup) :
    (m.withoutIncoming types).Nodup := by
  unfold withoutIncoming
  rw [List.nodup_flatMap]
  refine ⟨fun t _ => (nodup_byText (h.nodes.filter _)).filter _, distinct.imp fun {t u} hne => ?_⟩
  -- a key is listed under its own type only
  intro k ht hu
  have typed : ∀ v, k ∈ (byText (m.keys.filter fun k => k.type = v && m.incoming k = 0)).filter
      isReadable → k.type = v := by
    intro v hv
    have listed := (List.mem_filter.1 (mem_byText.1 (List.mem_filter.1 hv).1)).2
    rw [Bool.and_eq_true, decide_eq_true_iff] at listed
    exact listed.1
  exact hne ((typed t ht).symm.trans (typed u hu))

end StoredGraph

/-! ## What queries make of them -/

namespace Query

open StoredGraph

variable {m : StoredGraph} {least : Nat} {prefixes : List String} {keys : List NodeKey}
  {k : NodeKey}

/-- The busier of two hubs comes first, and of hubs that are equally busy the one with the smaller
key. -/
def Precedes (a b : Hub) : Prop :=
  b.total < a.total ∨ (a.total = b.total ∧ compare a.key b.key = .lt)

theorem mem_hubs {h : Hub} : h ∈ hubs m least ↔
    h.key ∈ m.keys ∧ isReadable h.key = true ∧ h.incoming = m.incoming h.key ∧
      h.outgoing = m.outgoing h.key ∧ least ≤ h.total := by
  unfold hubs hubsOf
  simp only [List.mem_mergeSort, List.mem_filter, List.mem_map, decide_eq_true_eq,
    mem_degreeCounts]
  constructor
  · rintro ⟨⟨c, ⟨hk, readable, incoming, outgoing, -⟩, rfl⟩, busy⟩
    exact ⟨hk, readable, incoming, outgoing, busy⟩
  · rintro ⟨hk, readable, incoming, outgoing, busy⟩
    refine ⟨⟨⟨h.key, h.incoming, h.outgoing⟩, ⟨hk, readable, incoming, outgoing, ?_⟩, rfl⟩, busy⟩
    -- what reaches a threshold reaches the one that the stored graph takes it for
    have reached : (least : Int) ≤ ((h.incoming + h.outgoing : Nat) : Int) := Int.ofNat_le.2 busy
    exact (signedWord_le least).trans reached

theorem nodup_hubs (h : m.Keyed) (least : Nat) : ((hubs m least).map Hub.key).Nodup := by
  unfold hubs hubsOf
  refine ((List.mergeSort_perm _ _).map _).nodup_iff.2 ?_
  refine List.Nodup.sublist (List.filter_sublist.map _) ?_
  rw [List.map_map]
  exact nodup_degreeCounts h least

theorem pairwise_hubs (h : m.Keyed) (least : Nat) : (hubs m least).Pairwise Precedes := by
  have distinct := ((List.mergeSort_perm _ _).map _).nodup_iff.1 (nodup_hubs h least)
  exact pairwise_busierFirst Hub.total Hub.key distinct

theorem beginsWith_iff {name start : String} :
    beginsWith name start = true ↔ start.toList <+: name.toList :=
  List.isPrefixOf_iff_prefix

/-- What dead code of one type is made of. -/
theorem mem_unused {type : NodeType} : k ∈ Sorted.sort ((keys.filter fun k =>
      !(prefixes.filter (· ≠ "")).any (beginsWith k.name)).filter (·.type = type)) ↔
    k ∈ keys ∧ k.type = type ∧ ∀ p ∈ prefixes, p ≠ "" → ¬ p.toList <+: k.name.toList := by
  simp only [Sorted.mem_sort, List.mem_filter, Bool.not_eq_true', List.any_eq_false,
    decide_eq_true_eq, beginsWith_iff, and_imp]
  constructor
  · rintro ⟨⟨hk, entry⟩, typed⟩
    exact ⟨hk, typed, entry⟩
  · rintro ⟨hk, typed, entry⟩
    exact ⟨⟨hk, entry⟩, typed⟩

end Query

/-! ## Degrees in a graph -/

/-- What a list of hubs of a graph has to be: each node with enough edges once, with the numbers of
edges into and out of it, in the order of `Query.Precedes`. -/
structure ListsHubs (g : Graph) (least : Nat) (hubs : List Hub) : Prop where
  mem_iff : ∀ h, h ∈ hubs ↔ h.key ∈ g.keys ∧ h.incoming = g.inDegree h.key ∧
    h.outgoing = g.outDegree h.key ∧ least ≤ g.inDegree h.key + g.outDegree h.key
  total : ∀ h ∈ hubs, h.total = g.inDegree h.key + g.outDegree h.key
  once : (hubs.map Hub.key).Nodup
  order : hubs.Pairwise Query.Precedes

/-- What a list of the unused nodes of a type has to be: each node of the type without edges into it
whose name begins with none of the prefixes that are not empty, once and in key order. -/
structure ListsUnused (g : Graph) (prefixes : List String) (type : NodeType)
    (ks : List NodeKey) : Prop where
  mem_iff : ∀ k, k ∈ ks ↔ k ∈ g.keys ∧ k.type = type ∧ g.inDegree k = 0 ∧
    ∀ p ∈ prefixes, p ≠ "" → ¬ p.toList <+: k.name.toList
  order : Ascending ks

section Listed

variable {g : Graph} {m : StoredGraph} {run : String} {k : NodeKey}

theorem Sync.Mirrors.incoming_eq (h : Sync.Mirrors run g m) (k : NodeKey) :
    m.incoming k = g.inDegree k := by
  rw [StoredGraph.incoming, h.edges.countP_eq, List.countP_map]
  rfl

theorem Sync.Mirrors.outgoing_eq (h : Sync.Mirrors run g m) (k : NodeKey) :
    m.outgoing k = g.outDegree k := by
  rw [StoredGraph.outgoing, h.edges.countP_eq, List.countP_map]
  rfl

theorem Sync.Mirrors.keyed (h : Sync.Mirrors run g m) (hg : g.WellFormed) : m.Keyed := by
  have nodes := h.nodes.map fun r => r.node.key
  have edges := h.edges.map EdgeRow.edge
  rw [List.map_map] at nodes edges
  refine ⟨nodes.nodup_iff.2 hg.keys_nodup, edges.nodup_iff.2 ?_⟩
  exact (List.map_id g.edges).symm ▸ hg.edges_nodup

theorem listsHubs_hubs (hg : Build.IsBuilt g) (mirrors : Sync.Mirrors run g m) (least : Nat) :
    ListsHubs g least (Query.hubs m least) := by
  have mem_iff : ∀ h, h ∈ Query.hubs m least ↔ h.key ∈ g.keys ∧ h.incoming = g.inDegree h.key ∧
      h.outgoing = g.outDegree h.key ∧ least ≤ h.total := by
    intro h
    rw [Query.mem_hubs, mirrors.mem_keys, mirrors.incoming_eq, mirrors.outgoing_eq]
    exact and_congr_right fun hk => and_iff_right (hg.isReadable hk)
  have keyed := mirrors.keyed hg.wellFormed
  have total : ∀ h : Hub, h.incoming = g.inDegree h.key → h.outgoing = g.outDegree h.key →
      h.total = g.inDegree h.key + g.outDegree h.key := by
    intro h incoming outgoing
    rw [Hub.total, incoming, outgoing]
  refine ⟨fun h => ?_, fun h hmem => ?_, Query.nodup_hubs keyed least,
    Query.pairwise_hubs keyed least⟩
  · rw [mem_iff]
    refine and_congr_right fun _ => and_congr_right fun incoming => ?_
    exact and_congr_right fun outgoing => by rw [total h incoming outgoing]
  · obtain ⟨-, incoming, outgoing, -⟩ := (mem_iff h).1 hmem
    exact total h incoming outgoing

/-- The nodes without incoming edges that a mirror of a graph lists are those of the graph. -/
theorem mem_withoutIncoming_iff (hg : Build.IsBuilt g) (mirrors : Sync.Mirrors run g m)
    {types : List NodeType} : k ∈ m.withoutIncoming types ↔
      k.type ∈ types ∧ k ∈ g.keys ∧ g.inDegree k = 0 := by
  rw [StoredGraph.mem_withoutIncoming, mirrors.mem_keys, mirrors.incoming_eq]
  refine and_congr_right fun _ => and_congr_right fun hk => ?_
  exact and_iff_left (hg.isReadable hk)

theorem listsUnused_sort (hg : Build.IsBuilt g) (mirrors : Sync.Mirrors run g m)
    (prefixes : List String) {types : List NodeType} (distinct : types.Nodup) {type : NodeType}
    (htype : type ∈ types) :
    ListsUnused g prefixes type (Sorted.sort (((m.withoutIncoming types).filter fun k =>
      !(prefixes.filter (· ≠ "")).any (Query.beginsWith k.name)).filter (·.type = type))) := by
  constructor
  · intro k
    rw [Query.mem_unused, mem_withoutIncoming_iff hg mirrors]
    constructor
    · rintro ⟨⟨-, hk, unused⟩, typed, entry⟩
      exact ⟨hk, typed, unused, entry⟩
    · rintro ⟨hk, rfl, unused, entry⟩
      exact ⟨⟨htype, hk, unused⟩, rfl, entry⟩
  · have listed := StoredGraph.nodup_withoutIncoming (mirrors.keyed hg.wellFormed) distinct
    exact Sorted.ascending_sort ((listed.filter _).filter _)

end Listed

namespace GraphStore

variable {g : Graph} {m : StoredGraph} {run : String} {s : GraphStore} {disk : Disk}
  {limits : QueryLimits}

/-- What a store that holds the copy of a graph answers about degrees: for every threshold the nodes
with so many edges, and for all prefixes the procedures and the classes that nothing uses. -/
theorem degrees_exact (hg : Build.IsBuilt g) (copied : Sync.Copied run g m)
    (answers : s.Answers disk limits.timeout [.ping, .degreeCounts, .nodesWithoutIncoming] m) :
    (∀ least, ∃ hubs, (s.hubs disk limits least).1 = .available hubs ∧ ListsHubs g least hubs) ∧
      ∀ prefixes : Option (List String), ∃ dead,
        (s.deadCode disk limits prefixes).1 = .available dead ∧
        ListsUnused g (prefixes.getD limits.entryPoints) .procedure dead.procedures ∧
        ListsUnused g (prefixes.getD limits.entryPoints) .classDef dead.classes := by
  have mirrors := copied.mirrors hg.wellFormed
  constructor
  · intro least
    exact ⟨_, answers.hubs (by decide) (by decide) least, listsHubs_hubs hg mirrors least⟩
  · intro prefixes
    refine ⟨_, answers.deadCode (by decide) (by decide) prefixes, ?_, ?_⟩
    · exact listsUnused_sort hg mirrors _ (by decide) (by decide)
    · exact listsUnused_sort hg mirrors _ (by decide) (by decide)

/-- Two classes joined twice, a procedure that others call, and a table that no record declares. -/
def portalRecords : List EntityRecord :=
  [{ kind := .classDef, name := "Audit", parentClass := some "Base", usesClasses := ["Base"] },
   { kind := .classDef, name := "Base" },
   { kind := .procedure, name := "APILogin", usesTables := ["User"], callsProcedures := ["Check"] },
   { kind := .procedure, name := "Check", usesTables := ["User", "Log"] },
   { kind := .procedure, name := "Retired", callsProcedures := ["Check"] },
   { kind := .table, name := "User" }]

/-- The graph of these records. -/
def portalGraph : Graph where
  nodes := [⟨⟨.table, "User"⟩, -1⟩, ⟨⟨.classDef, "Audit"⟩, -1⟩, ⟨⟨.classDef, "Base"⟩, -1⟩,
    ⟨⟨.procedure, "APILogin"⟩, -1⟩, ⟨⟨.procedure, "Check"⟩, -1⟩, ⟨⟨.procedure, "Retired"⟩, -1⟩,
    ⟨⟨.external, "Log"⟩, -1⟩]
  edges := [⟨⟨.classDef, "Audit"⟩, ⟨.classDef, "Base"⟩, .inherits⟩,
    ⟨⟨.classDef, "Audit"⟩, ⟨.classDef, "Base"⟩, .usesClass⟩,
    ⟨⟨.procedure, "APILogin"⟩, ⟨.table, "User"⟩, .usesTable⟩,
    ⟨⟨.procedure, "APILogin"⟩, ⟨.procedure, "Check"⟩, .callsProcedure⟩,
    ⟨⟨.procedure, "Check"⟩, ⟨.table, "User"⟩, .usesTable⟩,
    ⟨⟨.procedure, "Check"⟩, ⟨.external, "Log"⟩, .usesTable⟩,
    ⟨⟨.procedure, "Retired"⟩, ⟨.procedure, "Check"⟩, .callsProcedure⟩]

theorem isBuilt_portalGraph : Build.IsBuilt portalGraph := by
  have declared : Build.declarations portalRecords = [{ key := ⟨.table, "User"⟩ },
      { key := ⟨.classDef, "Audit"⟩, parent := some "Base", classes := ["Base"] },
      { key := ⟨.classDef, "Base"⟩ },
      { key := ⟨.procedure, "APILogin"⟩, tables := ["User"], procedures := ["Check"] },
      { key := ⟨.procedure, "Check"⟩, tables := ["User", "Log"] },
      { key := ⟨.procedure, "Retired"⟩, procedures := ["Check"] }] := by cbv
  exact Build.isBuilt_of_declarations declared (fun _ => none) (by rfl)

/-- A copy of this graph. -/
def portalCopy : StoredGraph where
  nodes := portalGraph.nodes.map (⟨·, "run"⟩)
  edges := portalGraph.edges.map (⟨·, "run"⟩)

/-- Parallel edges count one by one, and a name that begins with a prefix is not listed as unused.
-/
theorem degrees_exact_portal :
    (∃ hubs, (GraphStore.hubs { place := .memory portalCopy } {} {} 2).1 = .available hubs ∧
        ListsHubs portalGraph 2 hubs ∧ ⟨⟨.procedure, "Check"⟩, 2, 2⟩ ∈ hubs ∧
        ⟨⟨.classDef, "Base"⟩, 2, 0⟩ ∈ hubs ∧ ⟨⟨.procedure, "Retired"⟩, 0, 1⟩ ∉ hubs) ∧
      ∃ dead, (GraphStore.deadCode { place := .memory portalCopy } {} {} (some ["API", ""])).1 =
          .available dead ∧
        ListsUnused portalGraph ["API", ""] .procedure dead.procedures ∧
        ⟨.procedure, "Retired"⟩ ∈ dead.procedures ∧ ⟨.procedure, "APILogin"⟩ ∉ dead.procedures ∧
        ⟨.classDef, "Audit"⟩ ∈ dead.classes := by
  have leaves : GraphStore.sync { place := .memory {} } {} {} "run" portalGraph =
      ({ run := "run", nodesSynced := 7, edgesSynced := 7 }, { place := .memory portalCopy }, {}) := by
    cbv
  obtain ⟨copied, answers⟩ := answers_copy leaves rfl [.ping, .degreeCounts, .nodesWithoutIncoming]
    ({} : QueryLimits).timeout
  obtain ⟨busy, unused⟩ := degrees_exact isBuilt_portalGraph copied answers
  obtain ⟨hubs, hhubs, lists⟩ := busy 2
  obtain ⟨dead, hdead, procedures, classes⟩ := unused (some ["API", ""])
  refine ⟨⟨hubs, hhubs, lists, ?_, ?_, ?_⟩, dead, hdead, procedures, ?_, ?_, ?_⟩
  · exact (lists.mem_iff _).2 (by decide)
  · exact (lists.mem_iff _).2 (by decide)
  · exact fun listed => absurd ((lists.mem_iff _).1 listed) (by decide)
  · exact (procedures.mem_iff _).2 (by decide)
  · exact fun listed => absurd ((procedures.mem_iff _).1 listed) (by decide)
  · exact (classes.mem_iff _).2 (by decide)

end GraphStore

end LayerGraph
