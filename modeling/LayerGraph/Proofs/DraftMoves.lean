import LayerGraph.Graph.Order
import LayerGraph.Proofs.FirstCycle
import Mathlib.Algebra.Order.BigOperators.Group.List
import Mathlib.Algebra.Order.Group.Nat

/-!
# Steps of a layer's order

A draft of one layer's order takes two kinds of steps. While a node is ready, it places one. When
all nodes that are left wait for others, they hold a cycle, and the draft gives up a dependency of the
lightest member of the first one. It never has to release what is left.

Main statements:
1. `move_step`: these are the only steps.
2. `bound_move`: each of them leaves less to do.
-/

namespace LayerGraph

open Places

namespace Cycle

instance : Std.TransOrd BreakWeight :=
  inferInstanceAs (Std.TransCmp
    (compareLex (compareOn BreakWeight.inDegree) (compareOn BreakWeight.key)))

/-- A dependency of `u` is given up rather than one of `v`. -/
def Lighter (g : Graph) (u v : NodeKey) : Prop :=
  compare (BreakWeight.mk (g.inDegree u) u) (BreakWeight.mk (g.inDegree v) v) = .lt

theorem lighter_of_le {g : Graph} {u v : NodeKey} (hne : v ≠ u)
    (hle : Sorted.le (BreakWeight.mk (g.inDegree u) u) (BreakWeight.mk (g.inDegree v) v) = true) :
    Lighter g u v := by
  unfold Lighter
  unfold Sorted.le at hle
  cases hcmp : compare (BreakWeight.mk (g.inDegree u) u) (BreakWeight.mk (g.inDegree v) v) with
  | lt => rfl
  | eq =>
    have key_eq : u = v := Std.LawfulEqOrd.eq_of_compare (compareLex_eq_eq.1 hcmp).2
    exact absurd key_eq.symm hne
  | gt =>
    rw [hcmp] at hle
    exact absurd hle (by decide)

theorem Lighter.asymm {g : Graph} {u v : NodeKey} (h : Lighter g u v) : ¬ Lighter g v u := by
  intro h'
  unfold Lighter at h h'
  have swapped : compare (BreakWeight.mk (g.inDegree v) v) (BreakWeight.mk (g.inDegree u) u) =
      (compare (BreakWeight.mk (g.inDegree u) u) (BreakWeight.mk (g.inDegree v) v)).swap :=
    Std.OrientedOrd.eq_swap
  rw [swapped, h] at h'
  exact absurd h' (by decide)

/-- Fewer edges lead into the lighter one; of two with equally many it has the smaller key. -/
theorem lighter_iff {g : Graph} {u v : NodeKey} : Lighter g u v ↔
    g.inDegree u < g.inDegree v ∨ (g.inDegree u = g.inDegree v ∧ compare u v = .lt) := by
  show (compare (g.inDegree u) (g.inDegree v)).then (compare u v) = .lt ↔ _
  rcases Nat.lt_trichotomy (g.inDegree u) (g.inDegree v) with hlt | heq | hgt
  · rw [Nat.compare_eq_lt.2 hlt]
    exact iff_of_true rfl (.inl hlt)
  · rw [Nat.compare_eq_eq.2 heq]
    exact ⟨fun h => .inr ⟨heq, h⟩, fun h => (h.resolve_left (Nat.not_lt.2 heq.ge)).2⟩
  · rw [Nat.compare_eq_gt.2 hgt]
    constructor
    · exact fun h => nomatch h
    · rintro (hlt | ⟨heq, -⟩) <;> omega

/-- The suggested break of a cycle is its lightest member. -/
theorem lightest_of_ofMembers? {g : Graph} {members : List NodeKey} {c : Cycle}
    (h : ofMembers? g members = some c) : c.members = members ∧ c.suggestedBreak ∈ c.members ∧
      ∀ k ∈ c.members, k ≠ c.suggestedBreak → Lighter g c.suggestedBreak k := by
  obtain ⟨weakest, hleast, rfl⟩ := Option.map_eq_some_iff.1 h
  obtain ⟨hmem, below⟩ := Sorted.least?_spec hleast
  exact ⟨rfl, hmem, fun k hk hne => lighter_of_le hne (below k hk)⟩

theorem exists_ofMembers? {g : Graph} {members : List NodeKey} (h : members ≠ []) :
    ∃ c, ofMembers? g members = some c := by
  obtain ⟨weakest, heq⟩ := Sorted.exists_least? (fun k => BreakWeight.mk (g.inDegree k) k) h
  exact ⟨_, Option.map_eq_some_iff.2 ⟨weakest, heq, rfl⟩⟩

/-- Each member of a cycle has one after it. -/
theorem exists_successorOf? {c : Cycle} {k : NodeKey} (hk : k ∈ c.members) :
    ∃ v, c.successorOf? k = some v ∧ Next c.members k v := by
  unfold successorOf?
  cases hi : c.members.idxOf? k with
  | none => exact absurd hk (List.idxOf?_eq_none_iff.1 hi)
  | some i =>
    obtain ⟨hlt, heq, -⟩ := List.idxOf?_eq_some_iff.1 hi
    have hmod : (i + 1) % c.members.length < c.members.length :=
      Nat.mod_lt _ (Nat.zero_lt_of_lt hlt)
    have place : c.members[i]? = some k := List.getElem?_eq_some_iff.2 ⟨hlt, heq⟩
    exact ⟨_, List.getElem?_eq_getElem hmod, i, place, List.getElem?_eq_getElem hmod⟩

end Cycle

namespace Draft

variable {g : Graph} {d d' : Draft} {k j v source target : NodeKey}

/-! ## What is left and what it waits for -/

/-- The nodes that have no place yet. -/
def left (d : Draft) : List NodeKey :=
  d.waiting.map Prod.fst

theorem lookup_eq_some_of_mem {α β : Type} [DecidableEq α] {entries : List (α × β)}
    (nodup : (entries.map Prod.fst).Nodup) {a : α} {b : β} (h : (a, b) ∈ entries) :
    entries.lookup a = some b := by
  induction entries with
  | nil => exact absurd h List.not_mem_nil
  | cons entry rest ih =>
    obtain ⟨hnew, nodup⟩ := List.nodup_cons.1 nodup
    rcases List.mem_cons.1 h with rfl | h
    · exact List.lookup_cons_self
    · have hne : a ≠ entry.1 := by
        rintro rfl
        exact hnew (List.mem_map.2 ⟨_, h, rfl⟩)
      rw [List.lookup_cons, beq_eq_false_iff_ne.2 hne]
      exact ih nodup h

theorem waitsFor_of_mem (nodup : d.left.Nodup) {deps : List NodeKey} (h : (k, deps) ∈ d.waiting) :
    d.waitsFor k = deps := by
  rw [waitsFor, lookup_eq_some_of_mem nodup h]
  rfl

theorem waitsFor_of_not_mem (h : k ∉ d.left) : d.waitsFor k = [] := by
  have hnone : d.waiting.lookup k = none := by
    rw [List.lookup_eq_none_iff]
    intro entry hentry
    rw [bne_iff_ne]
    rintro rfl
    exact h (List.mem_map_of_mem hentry)
  rw [waitsFor, hnone]
  rfl

theorem left_place : (d.place k).left = d.left.filter (· ≠ k) := by
  rw [left, left, place, List.map_map, List.filter_map]
  rfl

theorem left_place_eq_erase (nodup : d.left.Nodup) : (d.place k).left = d.left.erase k := by
  rw [left_place, nodup.erase_eq_filter]
  refine List.filter_congr fun j _ => ?_
  rw [Bool.eq_iff_iff, decide_eq_true_iff, bne_iff_ne]

/-- The node that is placed waits for nothing any more, and nothing waits for it. -/
theorem waitsFor_place :
    (d.place k).waitsFor j = if j = k then [] else (d.waitsFor j).filter (· ≠ k) := by
  unfold waitsFor place
  dsimp only
  induction d.waiting with
  | nil => simp
  | cons entry rest ih =>
    obtain ⟨n, deps⟩ := entry
    by_cases hn : n = k
    · subst hn
      rw [List.filter_cons_of_neg (by simp), ih]
      by_cases hj : j = n
      · rw [if_pos hj, if_pos hj]
      · rw [if_neg hj, if_neg hj, List.lookup_cons, beq_eq_false_iff_ne.2 hj]
    · rw [List.filter_cons_of_pos (by simpa using hn), List.map_cons, List.lookup_cons,
        List.lookup_cons]
      by_cases hj : j = n
      · subst hj
        simp [hn]
      · rw [beq_eq_false_iff_ne.2 hj]
        exact ih

theorem left_drop : (d.drop source target).left = d.left := by
  rw [left, left, drop, List.map_map]
  rfl

theorem waitsFor_drop : (d.drop source target).waitsFor j =
    if j = source then (d.waitsFor j).filter (· ≠ target) else d.waitsFor j := by
  unfold waitsFor drop
  dsimp only
  induction d.waiting with
  | nil => simp
  | cons entry rest ih =>
    obtain ⟨n, deps⟩ := entry
    rw [List.map_cons, List.lookup_cons, List.lookup_cons]
    by_cases hj : j = n
    · subst hj
      rw [beq_self_eq_true]
      show (if j = source then deps.filter (· ≠ target) else deps) = _
      rfl
    · rw [beq_eq_false_iff_ne.2 hj]
      exact ih

/-! ## Moves -/

/-- What a step does: it places a ready node, or it gives up the dependency of the lightest member
of a cycle on the member after it, where each member of the cycle waits for the next one first. -/
inductive Move (g : Graph) : Draft → Draft → Prop
  | place {d : Draft} {k : NodeKey} : k ∈ d.left → d.waitsFor k = [] → Move g d (d.place k)
  | drop {d : Draft} {cycle : List NodeKey} {source target : NodeKey} :
      Search.FirstLinks d.waitsFor cycle → Next cycle source target →
      (∀ k ∈ cycle, k ≠ source → Cycle.Lighter g source k) → Move g d (d.drop source target)

/-- The ready node that is chosen is left and waits for nothing. -/
theorem ready?_spec (nodup : d.left.Nodup) (hready : d.ready? = some k) :
    k ∈ d.left ∧ d.waitsFor k = [] := by
  obtain ⟨⟨n, deps⟩, hfind, rfl⟩ := Option.map_eq_some_iff.1 hready
  have hmem := List.mem_of_find?_eq_some hfind
  have hempty := List.find?_some hfind
  refine ⟨List.mem_map_of_mem hmem, ?_⟩
  rw [waitsFor_of_mem nodup hmem]
  exact List.isEmpty_iff.1 hempty

/-- Of the ready nodes the one with the smallest key is chosen. -/
theorem ready?_le (ascending : Sorted.Ascending d.left) (hready : d.ready? = some k) (hj : j ∈ d.left)
    (ready : d.waitsFor j = []) : Sorted.le k j = true := by
  obtain ⟨entry, hfind, rfl⟩ := Option.map_eq_some_iff.1 hready
  obtain ⟨-, before, after, hsplit, hnot⟩ := List.find?_eq_some_iff_append.1 hfind
  obtain ⟨⟨n, deps⟩, hmem, rfl⟩ := List.mem_map.1 hj
  rw [waitsFor_of_mem ascending.nodup hmem] at ready
  subst ready
  rw [left, hsplit, List.map_append, List.map_cons] at ascending
  rw [hsplit] at hmem
  rcases List.mem_append.1 hmem with hmem | hmem
  · exact absurd (hnot _ hmem) (by simp)
  · rcases List.mem_cons.1 hmem with rfl | hmem
    · exact Std.ReflCmp.isLE_rfl
    · have hlt := (List.pairwise_cons.1 (List.pairwise_append.1 ascending).2.1).1 n
        (List.mem_map_of_mem hmem)
      rw [Sorted.le, hlt]
      rfl

/-- Where no node is ready, all that is left waits for something. -/
theorem waitsFor_ne_nil (nodup : d.left.Nodup) (hnone : d.ready? = none) :
    ∀ k ∈ d.left, d.waitsFor k ≠ [] := by
  intro k hk
  obtain ⟨⟨n, deps⟩, hmem, rfl⟩ := List.mem_map.1 hk
  rw [waitsFor_of_mem nodup hmem]
  have hnot := List.find?_eq_none.1 (Option.map_eq_none_iff.1 hnone) _ hmem
  exact fun hempty => hnot (List.isEmpty_iff.2 hempty)

/-- How a draft goes on where no node is ready: `c` is the first cycle that the search finds among
what is left, each member of it waits for the next one first, and its lightest member gives up that
it waits for `target`, the one after it. -/
structure Breaks (g : Graph) (d : Draft) (c : Cycle) (target : NodeKey) : Prop where
  found : (findCycles d.waitsFor d.left d.left).head? = some c.members
  cycle_eq : d.cycle? g = some c
  first : Search.FirstLinks d.waitsFor c.members
  successor_eq : c.successorOf? c.suggestedBreak = some target
  link : Next c.members c.suggestedBreak target
  lightest : ∀ k ∈ c.members, k ≠ c.suggestedBreak → Cycle.Lighter g c.suggestedBreak k

/-- Where all that is left waits for others that are left, there is a cycle to break. -/
theorem exists_breaks (dom : Search.Domain d.waitsFor d.left) (unfinished : d.left ≠ [])
    (stalled : ∀ k ∈ d.left, d.waitsFor k ≠ []) : ∃ c target, Breaks g d c target := by
  obtain ⟨cycle, hhead, hne, first⟩ :=
    Search.exists_head?_findCycles dom (fun _ h => h) unfinished stalled
  obtain ⟨c, hc⟩ := Cycle.exists_ofMembers? (g := g) hne
  obtain ⟨rfl, hmem, lightest⟩ := Cycle.lightest_of_ofMembers? hc
  obtain ⟨target, hsucc, link⟩ := Cycle.exists_successorOf? hmem
  have cycle_eq : d.cycle? g = some c := by
    unfold cycle?
    show (findCycles d.waitsFor d.left d.left).head?.bind _ = _
    rw [hhead, Option.bind_some, hc]
  exact ⟨c, target, hhead, cycle_eq, first, hsucc, link, lightest⟩

theorem Breaks.dependency_eq {c : Cycle} (h : Breaks g d c target) :
    d.dependencyToDrop? g = some (c.suggestedBreak, target) := by
  unfold dependencyToDrop?
  rw [h.cycle_eq]
  show Option.map _ _ = _
  rw [h.successor_eq]
  rfl

theorem mem_left_of_waits (h : v ∈ d.waitsFor k) : k ∈ d.left := by
  by_contra hnot
  rw [waitsFor_of_not_mem hnot] at h
  exact absurd h List.not_mem_nil

/-- Along the cycle each member waits for the next one. -/
theorem Breaks.mem_waitsFor {c : Cycle} (h : Breaks g d c target) (link : Next c.members k v) :
    v ∈ d.waitsFor k :=
  List.mem_of_head? (h.first k v link)

/-- Every member of the cycle is left. -/
theorem Breaks.mem_left {c : Cycle} (h : Breaks g d c target) (hk : k ∈ c.members) : k ∈ d.left := by
  obtain ⟨v, link⟩ := exists_next hk
  exact mem_left_of_waits (h.mem_waitsFor link)

theorem step_of_ready (hready : d.ready? = some k) : d.step g = d.place k := by
  unfold step
  rw [hready]

theorem Breaks.step_eq {c : Cycle} (h : Breaks g d c target) (hnone : d.ready? = none) :
    d.step g = d.drop c.suggestedBreak target := by
  unfold step
  rw [hnone, h.dependency_eq]

/-- A step of a draft that has nodes left is a move. -/
theorem move_step (dom : Search.Domain d.waitsFor d.left) (unfinished : d.left ≠ []) :
    Move g d (d.step g) := by
  cases hready : d.ready? with
  | some k =>
    obtain ⟨hk, ready⟩ := ready?_spec dom.nodup_nodes hready
    rw [step_of_ready hready]
    exact .place hk ready
  | none =>
    obtain ⟨c, target, breaks⟩ :=
      exists_breaks (g := g) dom unfinished (waitsFor_ne_nil dom.nodup_nodes hready)
    rw [breaks.step_eq hready]
    exact .drop breaks.first breaks.link breaks.lightest

/-! ## Each move leaves less to do -/

theorem bound_eq (nodup : d.left.Nodup) :
    d.bound = (d.left.map fun k => (d.waitsFor k).length + 1).sum := by
  have lengths : d.left.map (fun k => (d.waitsFor k).length + 1) =
      d.waiting.map fun entry => entry.2.length + 1 := by
    rw [left, List.map_map]
    refine List.map_congr_left fun entry hentry => ?_
    show (d.waitsFor entry.1).length + 1 = _
    rw [waitsFor_of_mem nodup hentry]
  rw [lengths, bound]
  induction d.waiting with
  | nil => rfl
  | cons entry rest ih => rw [List.foldr_cons, List.map_cons, List.sum_cons, ih]

theorem Move.nodup_left (m : Move g d d') (nodup : d.left.Nodup) : d'.left.Nodup := by
  cases m with
  | place _ _ =>
    rw [left_place]
    exact nodup.filter _
  | drop _ _ _ =>
    rw [left_drop]
    exact nodup

theorem bound_move (nodup : d.left.Nodup) (m : Move g d d') : d'.bound < d.bound := by
  rw [bound_eq (m.nodup_left nodup), bound_eq nodup]
  cases m with
  | @place k hk _ =>
    rw [left_place_eq_erase nodup, ← List.sum_map_erase (fun k => (d.waitsFor k).length + 1) hk]
    have smaller : ((d.left.erase k).map fun j => ((d.place k).waitsFor j).length + 1).sum ≤
        ((d.left.erase k).map fun j => (d.waitsFor j).length + 1).sum := by
      refine List.sum_le_sum fun j _ => Nat.succ_le_succ ?_
      rw [waitsFor_place]
      split
      · exact Nat.zero_le _
      · exact List.length_filter_le _ _
    omega
  | @drop cycle source target first link _ =>
    rw [left_drop]
    have htarget : target ∈ d.waitsFor source := List.mem_of_head? (first source target link)
    have hsource : source ∈ d.left := mem_left_of_waits htarget
    refine List.sum_lt_sum _ _ (fun j _ => ?_) ⟨source, hsource, ?_⟩
    · rw [waitsFor_drop]
      split
      · exact Nat.succ_le_succ (List.length_filter_le _ _)
      · exact Nat.le_refl _
    · rw [waitsFor_drop, if_pos rfl]
      exact Nat.succ_lt_succ (List.length_filter_lt_length_iff_exists.2 ⟨target, htarget, by simp⟩)

end Draft

end LayerGraph
