import LayerGraph.Proofs.LayerCircuits
import LayerGraph.Proofs.Worklist

/-!
# Stalls

Where no node of a layer is ready though some are left, each of them waits for another one. Following
what they wait for leads round a cycle, and the search finds one. What its lightest member waits for
there is still waited for, so giving it up is a step forward: the dependencies given up are different
ones, and there are no more of them than there are dependencies inside the layers.

Main statements:
1. `Sound.stall`: what a stall is like and how it ends.
2. `length_dropped_le`: how many dependencies are given up at most.
3. `stalls_break_cycles`: an order places ready nodes and breaks cycles, and does nothing else.
-/

namespace LayerGraph

open Places

namespace Draft

variable {g : Graph} {d : Draft} {members : List NodeKey} {c : Cycle} {target : NodeKey}

/-- A draft has come to a stall and ends it at the cycle `c`.

* `blocked`: no node is ready, each that is left waits for another one that is left.
* `found`, `two_le`, `nodup`, `left`, `edges`: `c` is the first cycle that a search among the nodes
  left finds; it has at least two members, all different and all left, and each of them depends on
  the next one inside the layer.
* `link`, `lightest`, `live`: its break is the member with the fewest edges into it, and of several
  such the one with the smallest key; `target` is the member after it, and it waits for that one.
* `waits`, `reported`, `placed_eq`, `left_eq`: the step takes this pair off what is waited for and no
  other, reports it and nothing else, and places nothing. -/
structure Stall (g : Graph) (members : List NodeKey) (d : Draft) (c : Cycle) (target : NodeKey) :
    Prop where
  ready?_eq : d.ready? = none
  blocked : ∀ k ∈ d.left, ∃ v ∈ d.waitsFor k, v ∈ d.left ∧ v ≠ k
  found : (findCycles d.waitsFor d.left d.left).head? = some c.members
  two_le : 2 ≤ c.members.length
  nodup : c.members.Nodup
  left : ∀ k ∈ c.members, k ∈ d.left
  edges : ∀ u v, Next c.members u v → Inside g members u v
  link : Next c.members c.suggestedBreak target
  lightest : ∀ k ∈ c.members, k ≠ c.suggestedBreak → g.inDegree c.suggestedBreak < g.inDegree k ∨
    (g.inDegree c.suggestedBreak = g.inDegree k ∧ compare c.suggestedBreak k = .lt)
  live : target ∈ d.waitsFor c.suggestedBreak
  waits : ∀ k v, v ∈ (d.step g).waitsFor k ↔
    v ∈ d.waitsFor k ∧ (k, v) ≠ (c.suggestedBreak, target)
  reported : (d.step g).dropped = d.dropped ++ [(c.suggestedBreak, target)]
  placed_eq : (d.step g).placed = d.placed
  left_eq : (d.step g).left = d.left

/-- A draft that has no ready node and breaks a cycle has come to a stall. -/
theorem Sound.stall (h : Sound g members d) (hg : g.WellFormed) (nodup : members.Nodup)
    (hready : d.ready? = none) (breaks : Breaks g d c target) : Stall g members d c target where
  ready?_eq := hready
  blocked := by
    intro k hk
    have waits := waitsFor_ne_nil (h.nodup_left nodup) hready k hk
    obtain ⟨v, hv⟩ := List.exists_mem_of_ne_nil _ waits
    obtain ⟨-, hleft, hdep, -⟩ := (h.mem_waitsFor k v).1 hv
    refine ⟨v, hv, hleft, ?_⟩
    rintro rfl
    exact hg.not_depends_self v hdep
  found := breaks.found
  two_le := by
    refine breaks.link.two_le_length fun same => ?_
    have live := breaks.mem_waitsFor breaks.link
    rw [same] at live
    exact (h.domain hg nodup).irrefl target live
  nodup := by
    obtain ⟨_, -, cycles, -⟩ := Search.findCycles_spec (h.domain hg nodup) (fun _ hk => hk)
    obtain ⟨_, nodup_cycle, -⟩ :=
      Search.exists_of_forall₂ cycles (List.mem_of_head? breaks.found)
    exact nodup_cycle
  left k hk := breaks.mem_left hk
  edges _ _ huv := h.inside_of_mem (breaks.mem_waitsFor huv)
  link := breaks.link
  lightest k hk hne := Cycle.lighter_iff.1 (breaks.lightest k hk hne)
  live := breaks.mem_waitsFor breaks.link
  waits := by
    intro k v
    rw [breaks.step_eq hready, waitsFor_drop, ne_eq, Prod.mk.injEq, not_and]
    split
    · next heq =>
      rw [List.mem_filter, decide_eq_true_iff]
      exact and_congr_right fun _ => ⟨fun hne _ => hne, fun hne => hne heq⟩
    · next hne => exact (and_iff_left fun heq => absurd heq hne).symm
  reported := by
    rw [breaks.step_eq hready]
    rfl
  placed_eq := by
    rw [breaks.step_eq hready]
    rfl
  left_eq := by
    rw [breaks.step_eq hready, left_drop]

end Draft

namespace Graph

/-- The pairs of nodes of one layer that an edge joins, each of them once. -/
def pairsWithin (g : Graph) : List (NodeKey × NodeKey) :=
  ((g.edges.filter fun e => e.source.layer = e.target.layer).map fun e => (e.source, e.target)).dedup

theorem mem_pairsWithin {g : Graph} {u v : NodeKey} :
    (u, v) ∈ g.pairsWithin ↔ g.DependsWithin u v := by
  rw [pairsWithin, List.mem_dedup, List.mem_map]
  constructor
  · rintro ⟨e, he, heq⟩
    obtain ⟨rfl, rfl⟩ := Prod.mk.inj heq
    obtain ⟨hmem, same⟩ := List.mem_filter.1 he
    exact ⟨⟨e, hmem, rfl, rfl⟩, of_decide_eq_true same⟩
  · rintro ⟨⟨e, he, rfl, rfl⟩, same⟩
    exact ⟨e, List.mem_filter.2 ⟨he, decide_eq_true same⟩, rfl⟩

end Graph

namespace MigrationOrder

variable {g : Graph} {layer : Option Layer}

/-- The order of a layer after at most `n` steps. -/
def draftAfter (g : Graph) (layer : Option Layer) (n : Nat) : Draft :=
  Draft.run g n (Draft.start g (membersOf g layer))

/-- The same with the ready nodes kept. -/
def worklistAfter (g : Graph) (layer : Option Layer) (n : Nat) : Worklist :=
  Worklist.run g n (Worklist.start g (membersOf g layer))

/-- No dependency is given up twice. -/
theorem length_dropped_le (hg : g.WellFormed) :
    (ofGraph g).dropped.length ≤ g.pairsWithin.length := by
  have sub : (ofGraph g).dropped.map (fun e => (e.source, e.target)) ⊆ g.pairsWithin := by
    intro p hp
    obtain ⟨e, he, rfl⟩ := List.mem_map.1 hp
    obtain ⟨hdep, hsource, htarget, -⟩ := dropped_spec hg he
    exact Graph.mem_pairsWithin.2 ⟨hdep, hsource.trans htarget.symm⟩
  have subperm := List.subperm_of_subset (nodup_dropped hg) sub
  rw [← List.length_map fun e : Dropped => (e.source, e.target)]
  exact subperm.length_le

/-- The order of a layer goes the same steps with the ready nodes kept. As long as members are left,
it either places a ready node, which has no place yet, or it has come to a stall and breaks a cycle.
So it gives up at most as many dependencies as there are inside the layers. -/
theorem stalls_break_cycles (h : g.Reachable) :
    (∀ layer n, (worklistAfter g layer n).draft = draftAfter g layer n ∧
      (worklistAfter g layer n).ready.head? = (draftAfter g layer n).ready? ∧
      ((draftAfter g layer n).left ≠ [] →
        (∃ k, (draftAfter g layer n).ready? = some k ∧ k ∉ (draftAfter g layer n).placed ∧
          (worklistAfter g layer n).turn g = .place k) ∨
        ∃ c target, (worklistAfter g layer n).turn g = .breakCycle c target ∧
          Draft.Stall g (membersOf g layer) (draftAfter g layer n) c target)) ∧
    (ofGraph g).dropped.length ≤ g.pairsWithin.length := by
  have hg := h.wellFormed
  refine ⟨fun layer n => ?_, length_dropped_le hg⟩
  have nodup := nodup_membersOf hg layer
  have sound : Draft.Sound g (membersOf g layer) (draftAfter g layer n) :=
    (Draft.sound_start nodup).run hg nodup n
  obtain ⟨kept, draft_eq⟩ := Worklist.run_start hg (ascending_membersOf hg layer) n
  have same : (worklistAfter g layer n).draft = draftAfter g layer n := draft_eq
  have head_eq : (worklistAfter g layer n).draft.ready? = (worklistAfter g layer n).ready.head? :=
    kept.ready?_draft
  rw [same] at head_eq
  refine ⟨same, head_eq.symm, fun unfinished => ?_⟩
  have regular : Worklist.Regular g (worklistAfter g layer n) := by
    refine kept.regular ?_ ?_
    · rw [draft_eq]
      exact sound.domain hg nodup
    · rw [draft_eq]
      exact unfinished
  cases regular with
  | place hready hfree hturn =>
    rw [same] at hready
    refine .inl ⟨_, hready, ?_, hturn⟩
    rw [← same]
    exact hfree
  | breakCycle hready breaks hturn =>
    rw [same] at hready breaks
    exact .inr ⟨_, _, hturn, sound.stall hg nodup hready breaks⟩

/-- The first stall of the overlapping cycles ends at the link from `A` to `B`. Of the four
dependencies two are given up. -/
theorem stalls_break_cycles_overlapping :
    Graph.overlapping.Reachable ∧
    Draft.Stall Graph.overlapping (membersOf Graph.overlapping (some .domain))
      (draftAfter Graph.overlapping (some .domain) 0)
      ⟨[⟨.classDef, "A"⟩, ⟨.classDef, "B"⟩], ⟨.classDef, "A"⟩⟩ ⟨.classDef, "B"⟩ ∧
    (worklistAfter Graph.overlapping (some .domain) 1).turn Graph.overlapping =
      .place ⟨.classDef, "A"⟩ ∧
    (ofGraph Graph.overlapping).dropped.length = 2 ∧ Graph.overlapping.pairsWithin.length = 4 ∧
    (ofGraph Graph.overlapping).dropped.length ≤ Graph.overlapping.pairsWithin.length := by
  have reachable : Graph.overlapping.Reachable := Graph.reachable_ofSteps _
  have turn_eq : (worklistAfter Graph.overlapping (some .domain) 0).turn Graph.overlapping =
      .breakCycle ⟨[⟨.classDef, "A"⟩, ⟨.classDef, "B"⟩], ⟨.classDef, "A"⟩⟩ ⟨.classDef, "B"⟩ := by
    cbv
  have turn_eq' : (worklistAfter Graph.overlapping (some .domain) 1).turn Graph.overlapping =
      .place ⟨.classDef, "A"⟩ := by
    cbv
  have dropped_length : (ofGraph Graph.overlapping).dropped.length = 2 := by cbv
  have pairs_length : Graph.overlapping.pairsWithin.length = 4 := by cbv
  have left_eq : (draftAfter Graph.overlapping (some .domain) 0).left =
      [⟨.classDef, "A"⟩, ⟨.classDef, "B"⟩, ⟨.classDef, "C"⟩] := by
    cbv
  obtain ⟨steps, bound⟩ := stalls_break_cycles reachable
  obtain ⟨-, -, progress⟩ := steps (some .domain) 0
  refine ⟨reachable, ?_, turn_eq', dropped_length, pairs_length, bound⟩
  rcases progress (left_eq ▸ List.cons_ne_nil _ _) with ⟨k, -, -, hturn⟩ | ⟨c, target, hturn, stall⟩
  · exact absurd (turn_eq.symm.trans hturn) (by simp)
  · obtain ⟨rfl, rfl⟩ := Worklist.Turn.breakCycle.inj (turn_eq.symm.trans hturn)
    exact stall

end MigrationOrder

end LayerGraph
