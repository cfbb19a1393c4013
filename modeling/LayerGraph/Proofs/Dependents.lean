import LayerGraph.Proofs.CopiedGraph
import LayerGraph.Proofs.DependentTables

/-!
# What an impact query reports

The tables of a stored graph give the dependents of a key by their texts, each with its distance, and
those whose text can be read back are counted. The report groups them twice, by distance and by type.
Both groupings hold each of them once, so nothing that depends on the key within the depth is left out
or counted twice: neither when several edges or several ways lead to the key, nor when the key lies on
a circle.

Main statements:
1. `mem_dependentsWithin`, `nodup_dependentsWithin`: the dependents of a key in a stored graph.
2. `groups_byDepth`, `groups_byType`: how the dependents are grouped.
3. `impact_exact`: what a query reports of a graph that was copied.
-/

namespace LayerGraph

open Sorted (Ascending)

/-! ## Dependents -/

namespace StoredGraph

variable {m : StoredGraph} {k u : NodeKey} {d i depth : Nat}

theorem depends_tables : m.tables.Depends = Relation.Map m.Depends NodeKey.text NodeKey.text := by
  refine funext₂ fun x y => propext ?_
  constructor
  · rintro ⟨_, hrow, rfl, rfl⟩
    obtain ⟨r, hr, rfl⟩ := mem_edges_tables.1 hrow
    exact ⟨r.edge.source, r.edge.target, ⟨r.edge, List.mem_map_of_mem hr, rfl, rfl⟩, rfl, rfl⟩
  · rintro ⟨_, _, ⟨_, he, rfl, rfl⟩, rfl, rfl⟩
    obtain ⟨r, hr, rfl⟩ := List.mem_map.1 he
    exact ⟨_, mem_edges_tables.2 ⟨r, hr, rfl⟩, rfl, rfl⟩

/-- The rows that the tables list are rows of keys, and those with a blank name are left out. -/
theorem exists_dependentsWithin (m : StoredGraph) (k : NodeKey) (depth : Nat) :
    ∃ rows : List (NodeKey × Nat),
      m.tables.dependentsWithin k.text depth = rows.map (fun row => (row.1.text, row.2)) ∧
      m.dependentsWithin k depth = rows.filter fun row => isReadable row.1 := by
  have keys : ∀ row ∈ m.tables.dependentsWithin k.text depth,
      row ∈ Set.range fun row : NodeKey × Nat => (row.1.text, row.2) := by
    rintro ⟨x, d⟩ hrow
    obtain ⟨-, -, hdist⟩ := Tables.mem_dependentsWithin.1 hrow
    rw [depends_tables, distance_map_iff fun _ _ => NodeKey.text_injective] at hdist
    obtain ⟨u, rfl, -⟩ := hdist
    exact ⟨(u, d), rfl⟩
  obtain ⟨rows, hrows⟩ := (Set.range_list_map _).ge keys
  refine ⟨rows, hrows.symm, ?_⟩
  unfold dependentsWithin
  rw [← hrows, List.filterMap_map, ← List.filterMap_eq_filter]
  refine List.filterMap_congr fun row _ => ?_
  show (NodeKey.ofText? row.1.text).map _ = _
  rw [NodeKey.ofText?_text, Option.guard]
  split <;> rfl

/-- The dependents that are listed are those within the depth, each with its distance. -/
theorem mem_dependentsWithin : (u, i) ∈ m.dependentsWithin k depth ↔
    isReadable u = true ∧ 0 < i ∧ i ≤ max depth 1 ∧ Distance m.Depends u k i := by
  obtain ⟨rows, hrows, kept⟩ := m.exists_dependentsWithin k depth
  have mem_rows : (u, i) ∈ rows ↔ (u.text, i) ∈ m.tables.dependentsWithin k.text depth := by
    rw [hrows, List.mem_map]
    constructor
    · exact fun hrow => ⟨_, hrow, rfl⟩
    · rintro ⟨⟨v, j⟩, hrow, heq⟩
      obtain ⟨same, rfl⟩ := Prod.mk.inj heq
      rwa [← NodeKey.text_injective same]
  rw [kept, List.mem_filter, mem_rows, Tables.mem_dependentsWithin, depends_tables,
    distance_map_iff fun _ _ => NodeKey.text_injective, and_comm]
  refine and_congr_right fun _ => and_congr_right fun _ => and_congr_right fun _ => ?_
  constructor
  · rintro ⟨v, same, hdist⟩
    rwa [← NodeKey.text_injective same]
  · exact fun hdist => ⟨u, rfl, hdist⟩

theorem nodup_dependentsWithin (m : StoredGraph) (k : NodeKey) (depth : Nat) :
    ((m.dependentsWithin k depth).map Prod.fst).Nodup := by
  obtain ⟨rows, hrows, kept⟩ := m.exists_dependentsWithin k depth
  have once := m.tables.nodup_dependentsWithin k.text depth
  rw [hrows, List.map_map] at once
  have keys : (rows.map Prod.fst).Nodup := by
    refine List.Nodup.of_map NodeKey.text ?_
    rw [List.map_map]
    exact once
  rw [kept]
  exact keys.sublist (List.filter_sublist.map _)

end StoredGraph

/-! ## Groups -/

/-- Keys in groups: the labels ascend, and behind each label stand, in key order, the keys that
belong under it, of which there is at least one. Each key that belongs anywhere is there once. -/
structure Groups {β : Type} [Ord β] (under : β → NodeKey → Prop)
    (groups : List (β × List NodeKey)) : Prop where
  labels : Ascending (groups.map Prod.fst)
  keys : ∀ b ks, (b, ks) ∈ groups → ks ≠ [] ∧ Ascending ks
  mem_iff : ∀ b n, (∃ ks, (b, ks) ∈ groups ∧ n ∈ ks) ↔ under b n
  once : ∀ b n, under b n → (groups.flatMap Prod.snd).count n = 1

variable {β : Type} [Ord β] {under : β → NodeKey → Prop} {rows : List (NodeKey × Nat)}

/-- A group for each of some ascending labels, if a key belongs under one label only. -/
theorem groups_map [Std.TransOrd β] {labels : List β} {keysAt : β → List NodeKey}
    (hlabels : Ascending labels) (nodup : ∀ b ∈ labels, (keysAt b).Nodup)
    (nonempty : ∀ b ∈ labels, keysAt b ≠ [])
    (mem_iff : ∀ b n, b ∈ labels ∧ n ∈ keysAt b ↔ under b n)
    (single : ∀ b c n, under b n → under c n → b = c) :
    Groups under (labels.map fun b => (b, Sorted.sort (keysAt b))) where
  labels := by
    rw [List.map_map]
    exact (List.map_id labels).symm ▸ hlabels
  keys b ks hgroup := by
    obtain ⟨c, hc, heq⟩ := List.mem_map.1 hgroup
    obtain ⟨rfl, rfl⟩ := Prod.mk.inj heq
    refine ⟨fun hnil => nonempty c hc ?_, Sorted.ascending_sort (nodup c hc)⟩
    exact List.length_eq_zero_iff.1 ((Sorted.length_sort (keysAt c)).symm.trans (hnil ▸ rfl))
  mem_iff b n := by
    rw [← mem_iff]
    constructor
    · rintro ⟨ks, hgroup, hn⟩
      obtain ⟨c, hc, heq⟩ := List.mem_map.1 hgroup
      obtain ⟨rfl, rfl⟩ := Prod.mk.inj heq
      exact ⟨hc, Sorted.mem_sort.1 hn⟩
    · rintro ⟨hb, hn⟩
      exact ⟨_, List.mem_map.2 ⟨b, hb, rfl⟩, Sorted.mem_sort.2 hn⟩
  once b n hn := by
    obtain ⟨hb, hmem⟩ := (mem_iff b n).2 hn
    rw [List.flatMap_map]
    refine List.count_eq_one_of_mem ?_ (List.mem_flatMap.2 ⟨b, hb, Sorted.mem_sort.2 hmem⟩)
    rw [List.nodup_flatMap]
    refine ⟨fun c hc => (Sorted.perm_sort _).nodup_iff.2 (nodup c hc), ?_⟩
    refine hlabels.nodup.imp_of_mem fun {c d} hc hd hne => ?_
    intro n' hleft hright
    refine hne (single c d n' ?_ ?_)
    · exact (mem_iff c n').1 ⟨hc, Sorted.mem_sort.1 hleft⟩
    · exact (mem_iff d n').1 ⟨hd, Sorted.mem_sort.1 hright⟩

theorem Groups.congr {under' : β → NodeKey → Prop} {groups : List (β × List NodeKey)}
    (h : Groups under groups) (iff : ∀ b n, under b n ↔ under' b n) : Groups under' groups := by
  obtain rfl : under = under' := funext₂ fun b n => propext (iff b n)
  exact h

/-- The keys of rows that hold each key once, grouped by their labels. -/
theorem groups_group [Std.TransOrd β] [Std.LawfulEqOrd β] [DecidableEq β]
    (label : NodeKey × Nat → β) (nodup : (rows.map Prod.fst).Nodup) :
    Groups (fun b n => ∃ d, (n, d) ∈ rows ∧ label (n, d) = b)
      ((Multimap.group label Prod.fst rows).toList.map fun (b, ks) => (b, Sorted.sort ks)) := by
  have mem_keysAt : ∀ b n, n ∈ (rows.filter (label · = b)).map Prod.fst ↔
      ∃ d, (n, d) ∈ rows ∧ label (n, d) = b := by
    intro b n
    simp only [List.mem_map, List.mem_filter, decide_eq_true_eq]
    constructor
    · rintro ⟨⟨n, d⟩, hrow, rfl⟩
      exact ⟨d, hrow⟩
    · rintro ⟨d, hrow⟩
      exact ⟨(n, d), hrow, rfl⟩
  rw [Multimap.toList_group, List.map_map]
  refine groups_map (Sorted.pairwise_distinct _) ?_ ?_ ?_ ?_
  · exact fun b _ => nodup.sublist (List.filter_sublist.map _)
  · intro b hb
    obtain ⟨⟨n, d⟩, hrow, rfl⟩ := List.mem_map.1 (Sorted.mem_distinct.1 hb)
    exact List.ne_nil_of_mem ((mem_keysAt _ n).2 ⟨d, hrow, rfl⟩)
  · intro b n
    rw [mem_keysAt, Sorted.mem_distinct]
    exact and_iff_right_of_imp fun ⟨d, hrow, hlabel⟩ => List.mem_map.2 ⟨(n, d), hrow, hlabel⟩
  · rintro _ _ n ⟨d, hd, rfl⟩ ⟨e, he, rfl⟩
    exact congrArg label (List.inj_on_of_nodup_map nodup hd he rfl)

namespace Query

/-- Rows that hold each key once are all counted. -/
theorem foldl_add (nodup : (rows.map Prod.fst).Nodup) :
    rows.foldl Tally.add {} =
      { distinct := rows.map Prod.fst
        byDepth := Multimap.group Prod.snd Prod.fst rows
        byType := Multimap.group (·.1.type) Prod.fst rows } := by
  have counts : ∀ (rows : List (NodeKey × Nat)) (t : Tally), (rows.map Prod.fst).Nodup →
      (∀ row ∈ rows, row.1 ∉ t.distinct) → rows.foldl Tally.add t =
        { distinct := t.distinct ++ rows.map Prod.fst
          byDepth := rows.foldl (fun m row => m.push row.2 row.1) t.byDepth
          byType := rows.foldl (fun m row => m.push row.1.type row.1) t.byType } := by
    intro rows
    induction rows with
    | nil => simp
    | cons row rest ih =>
      intro t nodup new
      obtain ⟨first, others⟩ := List.nodup_cons.1 nodup
      obtain ⟨hnew, new⟩ := List.forall_mem_cons.1 new
      have added : t.add row =
          { distinct := t.distinct ++ [row.1]
            byDepth := t.byDepth.push row.2 row.1
            byType := t.byType.push row.1.type row.1 } := by
        rw [Tally.add, if_neg (by rwa [List.contains_iff_mem])]
      rw [List.foldl_cons, added, ih _ others]
      · simp
      · intro other hother
        rw [List.mem_append, List.mem_singleton]
        rintro (before | same)
        · exact new other hother before
        · exact first (same ▸ List.mem_map_of_mem hother)
  exact counts rows {} nodup fun _ _ => List.not_mem_nil

/-- The keys of rows that hold each key once, grouped by their distances. -/
theorem groups_byDepth (k : NodeKey) (known : Bool) (depth : Nat)
    (nodup : (rows.map Prod.fst).Nodup) :
    Groups (fun d n => (n, d) ∈ rows) (impactOf k known depth rows).byDepth := by
  unfold impactOf
  rw [foldl_add nodup]
  refine (groups_group Prod.snd nodup).congr fun d n => ?_
  constructor
  · rintro ⟨_, hrow, rfl⟩
    exact hrow
  · exact fun hrow => ⟨d, hrow, rfl⟩

/-- The keys of rows that hold each key once, grouped by their types. -/
theorem groups_byType (k : NodeKey) (known : Bool) (depth : Nat)
    (nodup : (rows.map Prod.fst).Nodup) :
    Groups (fun t n => n.type = t ∧ ∃ d, (n, d) ∈ rows)
      (impactOf k known depth rows).byType := by
  unfold impactOf
  rw [foldl_add nodup]
  refine (groups_group (·.1.type) nodup).congr fun t n => ?_
  show (∃ d, (n, d) ∈ rows ∧ n.type = t) ↔ _
  rw [exists_and_right, and_comm]

theorem total_impactOf (k : NodeKey) (known : Bool) (depth : Nat)
    (nodup : (rows.map Prod.fst).Nodup) :
    (impactOf k known depth rows).total = (rows.map Prod.fst).length := by
  unfold impactOf
  rw [foldl_add nodup]

theorem one_le_clamp (bound limit : Nat) : 1 ≤ clamp bound limit :=
  Nat.le_max_left _ _

end Query

/-! ## Reports -/

/-- The nodes, other than the one asked about, from which it can be reached along edges in at least
one and at most so many steps. -/
def Affected (g : Graph) (k : NodeKey) (depth : Nat) (n : NodeKey) : Prop :=
  n ≠ k ∧ ∃ d, 1 ≤ d ∧ d ≤ depth ∧ Steps g.Depends d n k

/-- What a report on a key of a graph has to say: the affected nodes in groups by their distance and
in groups by their type, how many there are, and whether the graph has the key. -/
structure Impact.Reports (r : Impact) (g : Graph) (k : NodeKey) (depth : Nat) : Prop where
  target : r.target = k
  maxDepth : r.maxDepth = depth
  known : r.known = true ↔ k ∈ g.keys
  byDepth : Groups (fun d n => Affected g k depth n ∧ Distance g.Depends n k d) r.byDepth
  byType : Groups (fun t n => n.type = t ∧ Affected g k depth n) r.byType
  total : {n | Affected g k depth n}.encard = r.total

section Reports

variable {g : Graph} {m : StoredGraph} {run : String} {k n : NodeKey} {d depth : Nat}

theorem Graph.WellFormed.steps_mem (h : g.WellFormed) (steps : Steps g.Depends (d + 1) n k) :
    n ∈ g.keys ∧ k ∈ g.keys := by
  induction d generalizing n with
  | zero =>
    obtain ⟨v, hstep, hrest⟩ := steps_succ_iff.1 steps
    obtain rfl := steps_zero_iff.1 hrest
    exact h.depends_mem hstep
  | succ d ih =>
    obtain ⟨v, hstep, hrest⟩ := steps_succ_iff.1 steps
    exact ⟨(h.depends_mem hstep).1, (ih hrest).2⟩

theorem Affected.mem_keys (h : Affected g k depth n) (hg : g.WellFormed) :
    n ∈ g.keys ∧ k ∈ g.keys := by
  obtain ⟨-, d, hpos, -, steps⟩ := h
  obtain ⟨d, rfl⟩ := Nat.exists_eq_add_of_le' hpos
  exact hg.steps_mem steps

/-- A node is affected if its distance from the key is at least one and within the depth. -/
theorem affected_and_distance_iff :
    Affected g k depth n ∧ Distance g.Depends n k d ↔
      0 < d ∧ d ≤ depth ∧ Distance g.Depends n k d := by
  constructor
  · rintro ⟨⟨hne, i, -, hi, steps⟩, hdist⟩
    refine ⟨Nat.pos_of_ne_zero ?_, (hdist.le steps).trans hi, hdist⟩
    rintro rfl
    exact hne (distance_zero_iff.1 hdist)
  · rintro ⟨hpos, hle, hdist⟩
    refine ⟨⟨?_, d, hpos, hle, hdist.steps⟩, hdist⟩
    rintro rfl
    exact absurd (hdist.le (.refl n)) (Nat.not_le.2 hpos)

theorem Affected.exists_distance (h : Affected g k depth n) : ∃ d, Distance g.Depends n k d := by
  obtain ⟨-, i, -, -, steps⟩ := h
  obtain ⟨d, -, hdist⟩ := LayerGraph.exists_distance steps
  exact ⟨d, hdist⟩

/-- The rows that a mirror of a graph lists are its affected nodes with their distances. -/
theorem mem_rows_iff (hg : Build.IsBuilt g) (mirrors : Sync.Mirrors run g m) (hdepth : 1 ≤ depth) :
    (n, d) ∈ m.dependentsWithin k depth ↔
      Affected g k depth n ∧ Distance g.Depends n k d := by
  have same : m.Depends = g.Depends := funext₂ fun u v => propext mirrors.depends_iff
  rw [StoredGraph.mem_dependentsWithin, max_eq_left hdepth, same, ← affected_and_distance_iff]
  refine and_iff_right_of_imp fun ⟨affected, _⟩ => ?_
  exact hg.isReadable (affected.mem_keys hg.wellFormed).1

theorem reports_impact (hg : Build.IsBuilt g) (mirrors : Sync.Mirrors run g m)
    (limits : QueryLimits) (k : NodeKey) (maxDepth : Nat) :
    (Query.impact limits m k maxDepth).Reports g k (Query.clamp maxDepth limits.maxDepth) := by
  have mem_rows := fun n d => mem_rows_iff (k := k) (n := n) (d := d) hg mirrors
    (Query.one_le_clamp maxDepth limits.maxDepth)
  have nodup := m.nodup_dependentsWithin k (Query.clamp maxDepth limits.maxDepth)
  unfold Query.impact
  dsimp only
  generalize Query.clamp maxDepth limits.maxDepth = depth at mem_rows nodup ⊢
  generalize m.dependentsWithin k depth = rows at mem_rows nodup ⊢
  have affected_iff : ∀ n, (∃ d, (n, d) ∈ rows) ↔ Affected g k depth n := by
    intro n
    constructor
    · rintro ⟨d, hrow⟩
      exact ((mem_rows n d).1 hrow).1
    · intro affected
      obtain ⟨d, hdist⟩ := affected.exists_distance
      exact ⟨d, (mem_rows n d).2 ⟨affected, hdist⟩⟩
  constructor
  · rfl
  · rfl
  · show (!rows.isEmpty || m.contains k) = true ↔ _
    rw [Bool.or_eq_true, StoredGraph.contains_iff, mirrors.mem_keys]
    refine or_iff_right_of_imp fun hrows => ?_
    -- what something depends on is a node
    cases rows with
    | nil => exact absurd hrows (by decide)
    | cons row rest =>
      have affected := (affected_iff row.1).1 ⟨row.2, List.mem_cons_self⟩
      exact (affected.mem_keys hg.wellFormed).2
  · exact (Query.groups_byDepth k _ depth nodup).congr fun d n => mem_rows n d
  · exact (Query.groups_byType k _ depth nodup).congr fun t n => and_congr_right' (affected_iff n)
  · rw [Query.total_impactOf k _ depth nodup]
    refine encard_eq_length nodup fun n => ?_
    rw [← affected_iff, List.mem_map]
    constructor
    · rintro ⟨⟨n, d⟩, hrow, rfl⟩
      exact ⟨d, hrow⟩
    · rintro ⟨d, hrow⟩
      exact ⟨(n, d), hrow, rfl⟩

end Reports

namespace GraphStore

variable {g : Graph} {m : StoredGraph} {run : String} {s : GraphStore} {disk : Disk}
  {limits : QueryLimits}

/-- What a store that holds the copy of a graph reports on a key: the nodes that depend on it within
the depth, whatever circles, parallel edges and detours there are. -/
theorem impact_exact (hg : Build.IsBuilt g) (copied : Sync.Copied run g m)
    (answers : s.Answers disk limits.timeout [.ping, .dependentsWithin, .containsNode] m)
    (k : NodeKey) (maxDepth : Nat) :
    ∃ r, (s.impact disk limits k maxDepth).1 = .available r ∧
      r.Reports g k (Query.clamp maxDepth limits.maxDepth) :=
  ⟨_, answers.impact k maxDepth, reports_impact hg (copied.mirrors hg.wellFormed) limits k maxDepth⟩

/-- The report on a class that is on two circles. -/
def circleImpact : Impact where
  target := ⟨.classDef, "A"⟩
  known := true
  maxDepth := 3
  byDepth := [(1, [⟨.classDef, "B"⟩, ⟨.classDef, "C"⟩, ⟨.page, "P"⟩])]
  byType := [(.classDef, [⟨.classDef, "B"⟩, ⟨.classDef, "C"⟩]), (.page, [⟨.page, "P"⟩])]
  total := 3

theorem dependentsWithin_circleCopy : circleCopy.dependentsWithin ⟨.classDef, "A"⟩ 3 =
    [(⟨.classDef, "B"⟩, 1), (⟨.classDef, "C"⟩, 1), (⟨.page, "P"⟩, 1)] := by
  have rows : (circleCopy.tables.dependentRows "Class:A" 3).filter (·.1 ≠ "Class:A") =
      [("Class:B", 1), ("Class:C", 1), ("Page:P", 1), ("Class:B", 2), ("Page:P", 2),
       ("Class:B", 3), ("Class:C", 3), ("Page:P", 3)] := by cbv
  -- texts that begin alike take long to compare when they are sorted
  have texts : Sorted.distinct ["Class:B", "Class:C", "Page:P", "Class:B", "Page:P", "Class:B",
      "Class:C", "Page:P"] = ["Class:B", "Class:C", "Page:P"] := by
    have ascending : Ascending ["Class:B", "Class:C", "Page:P"] := by
      unfold Ascending
      decide
    refine Ascending.eq_of_mem_iff (Sorted.pairwise_distinct _) ascending fun x => ?_
    rw [Sorted.mem_distinct]
    simp only [List.mem_cons, List.not_mem_nil]
    tauto
  unfold StoredGraph.dependentsWithin Tables.dependentsWithin
  rw [show NodeKey.text ⟨.classDef, "A"⟩ = "Class:A" by rfl, rows]
  simp only [List.map]
  rw [texts]
  cbv

/-- The class itself is not among its dependents. -/
theorem impact_exact_circle :
    (GraphStore.impact { place := .memory circleCopy } {} {} ⟨.classDef, "A"⟩ 3).1 =
        .available circleImpact ∧
      circleImpact.Reports circleGraph ⟨.classDef, "A"⟩ 3 := by
  obtain ⟨-, copied, answers⟩ := answers_circleCopy [.ping, .dependentsWithin, .containsNode]
    ({} : QueryLimits).timeout
  obtain ⟨r, hr, reports⟩ := impact_exact isBuilt_circleGraph copied answers ⟨.classDef, "A"⟩ 3
  have evaluated : Query.impact {} circleCopy ⟨.classDef, "A"⟩ 3 = circleImpact := by
    unfold Query.impact
    dsimp only
    rw [show Query.clamp 3 ({} : QueryLimits).maxDepth = 3 by rfl, dependentsWithin_circleCopy]
    cbv
  have available := answers.impact ⟨.classDef, "A"⟩ 3
  rw [evaluated] at available
  cases available.symm.trans hr
  exact ⟨available, reports⟩

end GraphStore

end LayerGraph
