import LayerGraph.Proofs.KeyText
import LayerGraph.Proofs.PathSearch
import LayerGraph.Proofs.StoreAnswers
import LayerGraph.Proofs.StoredTables
import Mathlib

/-!
# What a connection query lists

The tables of a stored graph give the shortest paths between two keys by their texts. If the keys of
all rows have names that are not blank, every path can be read back, so a connection lists the paths
of the stored graph, as many of them as the limit allows.

Main statements:
1. `Readable.after`: which writes keep all keys such that they can be read back.
2. `exists_shortestPaths`, `shortestPaths_eq_nil`: the paths between two nodes of a stored graph.
3. `connection_exact`: what a query lists, whatever has been written to the store.
-/

namespace LayerGraph

open Sorted (Ascending)

namespace StoredGraph

variable {m : StoredGraph} {u v : NodeKey} {d limit : Nat}

/-- A stored edge joins the two keys, in either direction. -/
def Linked (m : StoredGraph) (u v : NodeKey) : Prop :=
  ∃ e ∈ m.edgeList, (e.source = u ∧ e.target = v) ∨ (e.source = v ∧ e.target = u)

theorem linked_tables : m.tables.Linked = Relation.Map m.Linked NodeKey.text NodeKey.text := by
  refine funext₂ fun x y => propext ?_
  constructor
  · rintro ⟨_, hrow, joins⟩
    obtain ⟨r, hr, rfl⟩ := mem_edges_tables.1 hrow
    have he : r.edge ∈ m.edgeList := List.mem_map_of_mem hr
    rcases joins with ⟨rfl, rfl⟩ | ⟨rfl, rfl⟩
    · exact ⟨_, _, ⟨r.edge, he, .inl ⟨rfl, rfl⟩⟩, rfl, rfl⟩
    · exact ⟨_, _, ⟨r.edge, he, .inr ⟨rfl, rfl⟩⟩, rfl, rfl⟩
  · rintro ⟨u, v, ⟨_, he, joins⟩, rfl, rfl⟩
    obtain ⟨r, hr, rfl⟩ := List.mem_map.1 he
    refine ⟨_, mem_edges_tables.2 ⟨r, hr, rfl⟩, joins.imp ?_ ?_⟩
    · rintro ⟨rfl, rfl⟩
      exact ⟨rfl, rfl⟩
    · rintro ⟨rfl, rfl⟩
      exact ⟨rfl, rfl⟩

/-! ## Names -/

/-- The keys that the write names have names that are not blank. -/
def Write.IsNamed : Write → Prop
  | .node n _ => isReadable n.key = true
  | .edge e _ => isReadable e.source = true ∧ isReadable e.target = true
  | .prune _ => True

instance (w : Write) : Decidable w.IsNamed :=
  match w with
  | .node n _ => inferInstanceAs (Decidable (isReadable n.key = true))
  | .edge e _ => inferInstanceAs (Decidable (isReadable e.source = true ∧ isReadable e.target = true))
  | .prune _ => .isTrue trivial

/-- All keys of rows can be read back from their texts. -/
structure Readable (m : StoredGraph) : Prop where
  nodes : ∀ k ∈ m.keys, isReadable k = true
  edges : ∀ e ∈ m.edgeList, isReadable e.source = true ∧ isReadable e.target = true

theorem Readable.after (h : m.Readable) {w : Write} (named : w.IsNamed) : (m.after w).Readable := by
  cases w with
  | node n run =>
    refine ⟨fun k hk => ?_, h.edges⟩
    obtain ⟨r, hr, rfl⟩ := List.mem_map.1 hk
    rcases Rows.mem_put.1 hr with rfl | ⟨hr, -⟩
    · exact named
    · exact h.nodes _ (List.mem_map_of_mem hr)
  | edge e run =>
    refine ⟨h.nodes, fun e' he' => ?_⟩
    obtain ⟨r, hr, rfl⟩ := List.mem_map.1 he'
    rcases Rows.mem_put.1 hr with rfl | ⟨hr, -⟩
    · exact named
    · exact h.edges _ (List.mem_map_of_mem hr)
  | prune run =>
    constructor
    · intro k hk
      exact h.nodes k ((List.filter_sublist.map _).subset hk)
    · intro e he
      exact h.edges e ((List.filter_sublist.map _).subset he)

theorem readable_foldl_after {ws : List Write} (named : ∀ w ∈ ws, w.IsNamed) :
    (ws.foldl StoredGraph.after {}).Readable := by
  have keeps : ∀ (ws : List Write) (m : StoredGraph), (∀ w ∈ ws, w.IsNamed) → m.Readable →
      (ws.foldl StoredGraph.after m).Readable := by
    intro ws
    induction ws with
    | nil => exact fun _ _ h => h
    | cons w rest ih =>
      intro m named h
      obtain ⟨first, others⟩ := List.forall_mem_cons.1 named
      exact ih _ others (h.after first)
  exact keeps ws {} named ⟨by simp [keys], by simp [edgeList]⟩

theorem Readable.linked (h : m.Readable) (hlinked : m.Linked u v) : isReadable v = true := by
  obtain ⟨e, he, ⟨-, rfl⟩ | ⟨rfl, -⟩⟩ := hlinked
  · exact (h.edges e he).2
  · exact (h.edges e he).1

/-! ## Shortest paths -/

variable {a b : NodeKey} {hops : Nat}

theorem mapM_ofText?_text {p : List NodeKey} (h : ∀ k ∈ p, isReadable k = true) :
    (p.map NodeKey.text).mapM NodeKey.ofText? = some p := by
  induction p with
  | nil => rfl
  | cons k rest ih =>
    obtain ⟨first, others⟩ := List.forall_mem_cons.1 h
    rw [List.map_cons, List.mapM_cons, NodeKey.ofText?_text, if_pos first, ih others]
    rfl

/-- All ways between the texts of two keys are the texts of all ways between the keys. -/
theorem exists_allWays {texts : List (List String)}
    (h : AllWays m.tables.Linked d a.text b.text texts) : ∃ paths,
      AllWays m.Linked d a b paths ∧ texts = paths.map (List.map NodeKey.text) := by
  have way_iff : ∀ q, q ∈ texts ↔ ∃ p, q = p.map NodeKey.text ∧ Way m.Linked d a b p := by
    intro q
    rw [h.mem_iff, linked_tables, way_map_iff fun _ _ => NodeKey.text_injective]
    constructor
    · rintro ⟨u, p, same, rfl, way⟩
      rw [NodeKey.text_injective same] at way
      exact ⟨p, rfl, way⟩
    · rintro ⟨p, rfl, way⟩
      exact ⟨a, p, rfl, rfl, way⟩
  have of_keys : ∀ q ∈ texts, q ∈ Set.range (List.map NodeKey.text) := by
    intro q hq
    obtain ⟨p, rfl, -⟩ := (way_iff q).1 hq
    exact ⟨p, rfl⟩
  obtain ⟨paths, rfl⟩ := (Set.range_list_map _).ge of_keys
  refine ⟨paths, ⟨h.nodup.of_map, fun p => ?_⟩, rfl⟩
  have injective : Function.Injective (List.map NodeKey.text) :=
    List.map_injective_iff.2 fun _ _ => NodeKey.text_injective
  rw [← List.mem_map_of_injective injective, way_iff]
  constructor
  · rintro ⟨p', same, way⟩
    rwa [injective same]
  · exact fun way => ⟨p, rfl, way⟩

/-- Of the shortest paths between two stored nodes as many are found as the limit allows, if they are
not too long. -/
theorem exists_shortestPaths (h : m.Readable) (hlimit : 1 ≤ limit) (ha : a ∈ m.keys)
    (hb : b ∈ m.keys) (hd : d ≤ hops) (hdist : Distance m.Linked a b d) :
    ∃ all, AllWays m.Linked d a b all ∧ m.shortestPaths a b hops limit = all.take limit := by
  have far : Distance m.tables.Linked a.text b.text d := by
    rw [linked_tables, distance_map_iff fun _ _ => NodeKey.text_injective]
    exact ⟨a, rfl, hdist⟩
  have stored {k : NodeKey} (hk : k ∈ m.keys) : m.tables.contains k.text = true := by
    rw [contains_tables, contains_iff]
    exact hk
  obtain ⟨texts, text_ways, found⟩ :=
    Tables.exists_shortestPaths hlimit (stored ha) (stored hb) hd far
  obtain ⟨all, ways, rfl⟩ := exists_allWays text_ways
  refine ⟨all, ways, ?_⟩
  rw [shortestPaths, found, ← List.map_take, List.filterMap_map]
  refine (List.filterMap_congr fun p hp => ?_).trans List.filterMap_some
  have way := (ways.mem_iff p).1 (List.mem_of_mem_take hp)
  exact mapM_ofText?_text (way.forall_mem (h.nodes a ha) fun x y hxy => h.linked hxy)

/-- Nothing is found when a node is not stored, or when there is no path that is short enough. -/
theorem shortestPaths_eq_nil
    (hnone : ¬ (a ∈ m.keys ∧ b ∈ m.keys ∧ ∃ d ≤ hops, Distance m.Linked a b d)) :
    m.shortestPaths a b hops limit = [] := by
  rw [shortestPaths, Tables.shortestPaths_eq_nil, List.filterMap_nil]
  rw [contains_tables, contains_iff, contains_tables, contains_iff, linked_tables]
  rintro ⟨ha, hb, d, hd, far⟩
  obtain ⟨u, same, hdist⟩ := (distance_map_iff fun _ _ => NodeKey.text_injective).1 far
  rw [NodeKey.text_injective same] at hdist
  exact hnone ⟨ha, hb, d, hd, hdist⟩

end StoredGraph

/-! ## Connections -/

/-- What is listed for two keys of a stored graph at some distance: as many of the shortest ways from
one to the other as the limit allows, each once and in order. None goes through a key twice. -/
structure Connection.Lists (c : Connection) (m : StoredGraph) (a b : NodeKey) (d limit : Nat) :
    Prop where
  source : c.source = a
  target : c.target = b
  hops : c.hops = d
  ways : ∀ p ∈ c.paths, Way m.Linked d a b p ∧ p.Nodup
  ascending : Ascending c.paths
  count : (c.paths.length : ℕ∞) = min (limit : ℕ∞) {p | Way m.Linked d a b p}.encard

section Connections

variable {m : StoredGraph} {a b : NodeKey} {d : Nat} {limits : QueryLimits} {maxHops : Nat}

/-- The connection of two keys, from a list of all shortest ways that has been cut off at a limit. -/
theorem exists_connectionOf? {all : List (List NodeKey)} {limit : Nat}
    (all_ways : AllWays m.Linked d a b all) (hdist : Distance m.Linked a b d)
    (hlimit : 1 ≤ limit) : ∃ c, Query.connectionOf? a b limit (all.take limit) = some c ∧
      c.Lists m a b d limit := by
  obtain ⟨nodup, mem_iff⟩ := all_ways
  have kept_mem : ∀ p ∈ all.take limit, Way m.Linked d a b p :=
    fun p hp => (mem_iff p).1 (List.mem_of_mem_take hp)
  have length_kept : (all.take limit).length = min limit all.length := List.length_take
  have kept_nodup : (all.take limit).Nodup := nodup.sublist (List.take_sublist limit all)
  generalize all.take limit = kept at kept_mem length_kept kept_nodup
  cases kept with
  | nil =>
    obtain ⟨p, way⟩ := steps_iff_exists_way.1 hdist.steps
    have some_way := List.length_pos_of_mem ((mem_iff p).2 way)
    rw [List.length_nil] at length_kept
    omega
  | cons first rest =>
    have sorted : ((first :: rest).mergeSort Query.pathOrder).take limit =
        Sorted.sort (first :: rest) := by
      refine List.take_of_length_le ?_
      show (Sorted.sort (first :: rest)).length ≤ limit
      rw [Sorted.length_sort, length_kept]
      exact Nat.min_le_left _ _
    refine ⟨_, rfl, rfl, rfl, ?_, ?_, ?_, ?_⟩
    · show first.length - 1 = d
      rw [(kept_mem first List.mem_cons_self).length]
      rfl
    · intro p hp
      have way := kept_mem p (Sorted.mem_sort.1 (sorted ▸ hp))
      exact ⟨way, way.nodup hdist⟩
    · show Ascending (((first :: rest).mergeSort Query.pathOrder).take limit)
      rw [sorted]
      exact Sorted.ascending_sort kept_nodup
    · show ((((first :: rest).mergeSort Query.pathOrder).take limit).length : ℕ∞) = _
      rw [sorted, Sorted.length_sort, length_kept, encard_eq_length nodup mem_iff]
      exact Nat.mono_cast.map_min

theorem exists_connection? (h : m.Readable) (ha : a ∈ m.keys) (hb : b ∈ m.keys)
    (hd : d ≤ Query.clamp maxHops limits.maxHops) (hdist : Distance m.Linked a b d) :
    ∃ c, Query.connection? limits m a b maxHops = some c ∧
      c.Lists m a b d (max 1 limits.maxPaths) := by
  have hlimit : 1 ≤ max 1 limits.maxPaths := Nat.le_max_left _ _
  obtain ⟨all, ways, found⟩ := StoredGraph.exists_shortestPaths h hlimit ha hb hd hdist
  unfold Query.connection?
  dsimp only
  rw [found]
  exact exists_connectionOf? ways hdist hlimit

theorem connection?_eq_none
    (hnone : ¬ (a ∈ m.keys ∧ b ∈ m.keys ∧
      ∃ d ≤ Query.clamp maxHops limits.maxHops, Distance m.Linked a b d)) :
    Query.connection? limits m a b maxHops = none := by
  unfold Query.connection?
  dsimp only
  rw [StoredGraph.shortestPaths_eq_nil hnone]
  rfl

theorem Connection.Lists.paths_self {c : Connection} {limit : Nat} (h : c.Lists m a a d limit)
    (hlimit : 1 ≤ limit) (hdist : Distance m.Linked a a d) : c.paths = [[a]] := by
  obtain rfl : d = 0 := hdist.unique (distance_zero_iff.2 rfl)
  have only := allWays_self m.Linked a
  have count := h.count
  rw [encard_eq_length only.nodup only.mem_iff, List.length_singleton,
    min_eq_right (by exact_mod_cast hlimit)] at count
  obtain ⟨p, hp⟩ := List.length_eq_one_iff.1 (by exact_mod_cast count : c.paths.length = 1)
  have way := (h.ways p (hp ▸ List.mem_cons_self)).1
  rw [hp, (way_zero_iff.1 way).2]

end Connections

namespace GraphStore

open StoredGraph (Write)

/-- Whatever has been written to a store, two of its nodes that are near enough are connected by
their shortest ways, as many of them as the limit allows, and all others are not connected. -/
theorem connection_exact {ws : List Write} {s : GraphStore} {disk : Disk} {limits : QueryLimits}
    (named : ∀ w ∈ ws, w.IsNamed)
    (answers : s.Answers disk limits.timeout [.ping, .shortestPaths]
      (ws.foldl StoredGraph.after {})) (a b : NodeKey) (maxHops : Nat) :
    let m := ws.foldl StoredGraph.after {}
    let hops := Query.clamp maxHops limits.maxHops
    (∀ d ≤ hops, a ∈ m.keys → b ∈ m.keys → Distance m.Linked a b d →
      ∃ c, (s.connection disk limits a b maxHops).1 = .available c ∧
        c.Lists m a b d (max 1 limits.maxPaths) ∧ (a = b → c.paths = [[a]])) ∧
    (¬ (a ∈ m.keys ∧ b ∈ m.keys ∧ ∃ d ≤ hops, Distance m.Linked a b d) →
      (s.connection disk limits a b maxHops).1 = .noPath) := by
  intro m hops
  have readable : m.Readable := StoredGraph.readable_foldl_after named
  rw [answers.connection]
  constructor
  · intro d hd ha hb hdist
    obtain ⟨c, hc, lists⟩ := exists_connection? readable ha hb hd hdist
    refine ⟨c, by rw [hc]; rfl, lists, ?_⟩
    rintro rfl
    exact lists.paths_self (Nat.le_max_left _ _) hdist
  · intro hnone
    rw [connection?_eq_none hnone]
    rfl

/-- Three classes between two tables, joined to them by edges in both directions, one of them twice,
and a shorter connection that a prune has taken away. -/
def diamondWrites : List Write :=
  let s : NodeKey := ⟨.table, "S"⟩
  let t : NodeKey := ⟨.table, "T"⟩
  let a : NodeKey := ⟨.classDef, "A"⟩
  let b : NodeKey := ⟨.classDef, "B"⟩
  let c : NodeKey := ⟨.classDef, "C"⟩
  [.edge ⟨s, t, .usesTable⟩ "old", .prune "new", .node ⟨s, 0⟩ "new", .node ⟨t, 0⟩ "new",
   .edge ⟨s, a, .usesClass⟩ "new", .edge ⟨s, b, .usesClass⟩ "new", .edge ⟨b, s, .usesTable⟩ "new",
   .edge ⟨c, s, .usesTable⟩ "new", .edge ⟨t, a, .usesClass⟩ "new", .edge ⟨t, b, .usesClass⟩ "new",
   .edge ⟨c, t, .usesTable⟩ "new"]

/-- The rows that are left. -/
def diamond : StoredGraph where
  nodes := [⟨⟨⟨.table, "S"⟩, 0⟩, "new"⟩, ⟨⟨⟨.table, "T"⟩, 0⟩, "new"⟩]
  edges := [⟨⟨⟨.table, "S"⟩, ⟨.classDef, "A"⟩, .usesClass⟩, "new"⟩,
    ⟨⟨⟨.table, "S"⟩, ⟨.classDef, "B"⟩, .usesClass⟩, "new"⟩,
    ⟨⟨⟨.classDef, "B"⟩, ⟨.table, "S"⟩, .usesTable⟩, "new"⟩,
    ⟨⟨⟨.classDef, "C"⟩, ⟨.table, "S"⟩, .usesTable⟩, "new"⟩,
    ⟨⟨⟨.table, "T"⟩, ⟨.classDef, "A"⟩, .usesClass⟩, "new"⟩,
    ⟨⟨⟨.table, "T"⟩, ⟨.classDef, "B"⟩, .usesClass⟩, "new"⟩,
    ⟨⟨⟨.classDef, "C"⟩, ⟨.table, "T"⟩, .usesTable⟩, "new"⟩]

theorem diamond_eq : diamondWrites.foldl StoredGraph.after {} = diamond := by decide

/-- What is listed of three shortest ways, if two are wanted. -/
def diamondConnection : Connection where
  source := ⟨.table, "S"⟩
  target := ⟨.table, "T"⟩
  hops := 2
  paths := [[⟨.table, "S"⟩, ⟨.classDef, "A"⟩, ⟨.table, "T"⟩],
    [⟨.table, "S"⟩, ⟨.classDef, "B"⟩, ⟨.table, "T"⟩]]

/-- With two hops allowed the two tables are connected, and with one they are not. -/
theorem connection_exact_diamond :
    let limits : QueryLimits := { maxPaths := 2 }
    let s : GraphStore := { place := .memory (diamondWrites.foldl StoredGraph.after {}) }
    (∀ w ∈ diamondWrites, w.IsNamed) ∧
    (s.connection {} limits ⟨.table, "S"⟩ ⟨.table, "T"⟩ 2).1 = .available diamondConnection ∧
    diamondConnection.Lists diamond ⟨.table, "S"⟩ ⟨.table, "T"⟩ 2 2 ∧
    (s.connection {} limits ⟨.table, "S"⟩ ⟨.table, "T"⟩ 1).1 = .noPath := by
  intro limits s
  have named : ∀ w ∈ diamondWrites, w.IsNamed := by decide
  have answers := answers_memory (diamondWrites.foldl StoredGraph.after {}) {} limits.timeout
    [.ping, .shortestPaths]
  have evaluated : Query.connection? limits diamond ⟨.table, "S"⟩ ⟨.table, "T"⟩ 2 =
      some diamondConnection := by cbv
  have available := answers.connection ⟨.table, "S"⟩ ⟨.table, "T"⟩ 2
  rw [diamond_eq, evaluated] at available
  have near := connection_exact named answers ⟨.table, "S"⟩ ⟨.table, "T"⟩ 2
  have far := connection_exact named answers ⟨.table, "S"⟩ ⟨.table, "T"⟩ 1
  rw [diamond_eq] at near far
  by_cases connected : (⟨.table, "S"⟩ : NodeKey) ∈ diamond.keys ∧ ⟨.table, "T"⟩ ∈ diamond.keys ∧
      ∃ d ≤ Query.clamp 2 limits.maxHops, Distance diamond.Linked ⟨.table, "S"⟩ ⟨.table, "T"⟩ d
  · obtain ⟨hs, ht, d, hd, hdist⟩ := connected
    obtain ⟨c, hc, lists, -⟩ := near.1 d hd hs ht hdist
    cases available.symm.trans hc
    obtain rfl : 2 = d := lists.hops
    refine ⟨named, available, lists, far.2 ?_⟩
    rintro ⟨-, -, i, hi, hnear⟩
    rw [hnear.unique hdist] at hi
    exact absurd hi (by decide)
  · cases available.symm.trans (near.2 connected)

end GraphStore

end LayerGraph
