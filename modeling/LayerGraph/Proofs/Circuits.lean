import LayerGraph.Proofs.GraphInvariant
import LayerGraph.Proofs.SearchCycles
import Mathlib

/-!
# The cycles of a graph and its circuits

A graph may have far more circuits than the cycles it lists. The listed ones are still enough to
break all circuits: it takes one link of each. So a graph without listed cycles has no circuit, and
wherever nodes depend on each other, a cycle is listed among them.

Main statement: `cycles_break_circuits`.
-/

namespace LayerGraph

open Places

namespace Graph

variable {g : Graph}

/-- Some node depends on itself, through others. -/
def HasCircuit (g : Graph) : Prop :=
  ∃ k, Relation.TransGen g.Depends k k

/-- Each of two nodes depends on the other, directly or through others. -/
def Entangled (g : Graph) (u v : NodeKey) : Prop :=
  Relation.TransGen g.Depends u v ∧ Relation.TransGen g.Depends v u

/-- The graph less all edges between the given pairs. -/
def without (g : Graph) (pairs : List (NodeKey × NodeKey)) : Graph :=
  { g with edges := g.edges.filter fun e => (e.source, e.target) ∉ pairs }

theorem depends_without_iff {pairs : List (NodeKey × NodeKey)} {u v : NodeKey} :
    (g.without pairs).Depends u v ↔ g.Depends u v ∧ (u, v) ∉ pairs := by
  constructor
  · rintro ⟨e, he, rfl, rfl⟩
    obtain ⟨hmem, hnot⟩ := List.mem_filter.1 he
    exact ⟨⟨e, hmem, rfl, rfl⟩, of_decide_eq_true hnot⟩
  · rintro ⟨⟨e, he, rfl, rfl⟩, hnot⟩
    exact ⟨e, List.mem_filter.2 ⟨he, decide_eq_true hnot⟩, rfl, rfl⟩

/-! ## The listed cycles -/

theorem WellFormed.domain (h : g.WellFormed) : Search.Domain g.successors g.sortedKeys where
  nodup_nodes := h.nodup_sortedKeys
  closed := by
    intro k _ v hv
    rw [mem_sortedKeys]
    exact (h.depends_mem (mem_successors.1 hv)).2
  nodup_succ := nodup_successors g
  irrefl k hk := h.not_depends_self k (mem_successors.1 hk)

theorem members_ofMembers? {members : List NodeKey} (h : members ≠ []) :
    (Cycle.ofMembers? g members).map Cycle.members = some members := by
  obtain ⟨weakest, heq⟩ := Sorted.exists_least? (fun k => Cycle.BreakWeight.mk (g.inDegree k) k) h
  rw [Cycle.ofMembers?, heq]
  rfl

/-- No cycle that the search finds is lost when its break is suggested. -/
theorem members_cycles {backs : List (NodeKey × NodeKey)}
    {R : List NodeKey → NodeKey × NodeKey → Prop}
    (links : List.Forall₂ (fun cycle b => R cycle b ∧ Next cycle b.1 b.2)
      (findCycles g.successors g.sortedKeys g.sortedKeys) backs) :
    g.cycles.map Cycle.members = findCycles g.successors g.sortedKeys g.sortedKeys := by
  rw [cycles, List.map_filterMap]
  generalize findCycles g.successors g.sortedKeys g.sortedKeys = found at links
  induction links with
  | nil => rfl
  | @cons cycle b rest _ link _ ih =>
    have hne : cycle ≠ [] := List.ne_nil_of_mem link.2.left_mem
    rw [List.filterMap_cons, members_ofMembers? hne]
    exact congrArg (cycle :: ·) ih

/-- What pairs two lists up, the first without repetitions, is a function on the first. -/
theorem exists_pick {α β : Type} [DecidableEq α] {R : α → β → Prop} {as : List α} {bs : List β}
    (nodup : as.Nodup) (h : List.Forall₂ R as bs) (default : β) :
    ∃ pick : α → β, (∀ a ∈ as, R a (pick a)) ∧ as.map pick = bs := by
  induction h with
  | nil => exact ⟨fun _ => default, fun _ ha => absurd ha List.not_mem_nil, rfl⟩
  | @cons a b as bs r _ ih =>
    obtain ⟨hnew, nodup⟩ := List.nodup_cons.1 nodup
    obtain ⟨pick, hpick, hmap⟩ := ih nodup
    have same : ∀ c ∈ as, Function.update pick a b c = pick c := by
      intro c hc
      have hne : c ≠ a := by
        rintro rfl
        exact hnew hc
      exact Function.update_of_ne hne b pick
    refine ⟨Function.update pick a b, ?_, ?_⟩
    · intro c hc
      rcases List.mem_cons.1 hc with rfl | hc
      · rw [Function.update_self]
        exact r
      · rw [same c hc]
        exact hpick c hc
    · rw [List.map_cons, Function.update_self, List.map_congr_left same, hmap]

/-- Each listed cycle runs along dependencies and has a link, such that giving up these links leaves
no circuit. -/
theorem WellFormed.exists_links (h : g.WellFormed) :
    ∃ pick : Cycle → NodeKey × NodeKey,
      (∀ c ∈ g.cycles, (∀ u v, Next c.members u v → g.Depends u v) ∧
        Next c.members (pick c).1 (pick c).2) ∧
      ¬ (g.without (g.cycles.map pick)).HasCircuit := by
  obtain ⟨backs, nodup, links, acc⟩ := Search.findCycles_spec h.domain (fun _ hk => hk)
  have links' := links.imp fun _ _ hc => And.intro hc.2.1 hc.2.2
  have members_eq := members_cycles links'
  rw [← members_eq] at nodup links'
  obtain ⟨pick, hpick, hmap⟩ :=
    exists_pick nodup.of_map (List.forall₂_map_left_iff.1 links') default
  refine ⟨pick, fun c hc => ?_, ?_⟩
  · obtain ⟨edges, link⟩ := hpick c hc
    exact ⟨fun u v huv => mem_successors.1 (edges u v huv), link⟩
  · rw [hmap]
    rintro ⟨k, circuit⟩
    have hk : k ∈ g.keys := by
      obtain ⟨j, hkj, -⟩ := Relation.TransGen.head'_iff.1 circuit
      exact (h.depends_mem (depends_without_iff.1 hkj).1).1
    have descends : Relation.TransGen (Search.Descends g.successors backs) k k := by
      refine Relation.transGen_swap.2 (Relation.TransGen.mono (fun u v huv => ?_) k k circuit)
      obtain ⟨hdep, hnot⟩ := depends_without_iff.1 huv
      exact ⟨mem_successors.2 hdep, hnot⟩
    have acc' := (acc k (mem_sortedKeys.2 hk)).transGen
    clear hk circuit
    induction acc' with
    | intro k _ ih => exact ih k descends descends

/-! ## Circuits -/

/-- The members of a listed cycle depend on each other. -/
theorem entangled_of_mem {c : Cycle} (edges : ∀ u v, Next c.members u v → g.Depends u v)
    {u v : NodeKey} (hu : u ∈ c.members) (hv : v ∈ c.members) : g.Entangled u v :=
  ⟨transGen_of_mem edges hu hv, transGen_of_mem edges hv hu⟩

theorem Entangled.trans {u v w : NodeKey} (huv : g.Entangled u v) (hvw : g.Entangled v w) :
    g.Entangled u w :=
  ⟨huv.1.trans hvw.1, hvw.2.trans huv.2⟩

/-- A circuit goes on through any graph that keeps the edges between the nodes entangled with one
of it. -/
theorem transGen_of_entangled {g' : Graph} {u : NodeKey} (hu : g.Entangled u u)
    (keeps : ∀ v w, g.Entangled u v → g.Entangled u w → g.Depends v w → g'.Depends v w) :
    Relation.TransGen g'.Depends u u := by
  have reach : ∀ w, Relation.TransGen g.Depends u w → Relation.TransGen g.Depends w u →
      Relation.TransGen g'.Depends u w := by
    intro w huw hwu
    induction huw with
    | single huw => exact .single (keeps _ _ hu ⟨.single huw, hwu⟩ huw)
    | @tail v w huv hvw ih =>
      have hvu := Relation.TransGen.head hvw hwu
      exact (ih hvu).tail (keeps _ _ ⟨huv, hvu⟩ ⟨huv.tail hvw, hwu⟩ hvw)
  exact reach u hu.1 hu.2

/-- One link of each listed cycle can be chosen so that the graph without all edges between the
chosen pairs has no circuit. A graph has listed cycles just when it has a circuit, and any two nodes
that depend on each other are entangled with all members of some listed cycle. -/
theorem cycles_break_circuits (h : g.Reachable) :
    (∃ pick : Cycle → NodeKey × NodeKey,
      (∀ c ∈ g.cycles, Next c.members (pick c).1 (pick c).2 ∧ g.Depends (pick c).1 (pick c).2) ∧
      ¬ (g.without (g.cycles.map pick)).HasCircuit) ∧
    (g.hasCycles = true ↔ g.HasCircuit) ∧
    ∀ u v, g.Entangled u v → ∃ c ∈ g.cycles, ∀ w ∈ c.members, g.Entangled u w := by
  obtain ⟨pick, links, broken⟩ := h.wellFormed.exists_links
  refine ⟨⟨pick, fun c hc => ⟨(links c hc).2, (links c hc).1 _ _ (links c hc).2⟩, broken⟩, ?_, ?_⟩
  · rw [hasCycles, Bool.not_eq_true', List.isEmpty_eq_false_iff]
    constructor
    · intro hne
      obtain ⟨c, hc⟩ := List.exists_mem_of_ne_nil _ hne
      obtain ⟨edges, link⟩ := links c hc
      exact ⟨_, (entangled_of_mem edges link.left_mem link.left_mem).1⟩
    · rintro ⟨k, circuit⟩ hnil
      refine broken ⟨k, Relation.TransGen.mono (fun u v huv => ?_) k k circuit⟩
      rw [hnil]
      exact depends_without_iff.2 ⟨huv, List.not_mem_nil⟩
  · intro u v huv
    -- were no cycle listed in the component of `u`, then all edges inside it would be left
    by_contra hnone
    refine broken ⟨u, transGen_of_entangled (huv.trans ⟨huv.2, huv.1⟩) ?_⟩
    intro a b hua _ hab
    refine depends_without_iff.2 ⟨hab, fun hmem => hnone ?_⟩
    obtain ⟨c, hc, heq⟩ := List.mem_map.1 hmem
    obtain ⟨edges, link⟩ := links c hc
    rw [heq] at link
    exact ⟨c, hc, fun w hw => hua.trans (entangled_of_mem edges link.left_mem hw)⟩

/-- Two cycles that share a member are both listed, and one link of each breaks them. -/
theorem overlapping_cycles_break_circuits :
    overlapping.Reachable ∧ overlapping.cycles.length = 2 ∧ overlapping.HasCircuit ∧
      (∃ pick : Cycle → NodeKey × NodeKey,
        (∀ c ∈ overlapping.cycles, Next c.members (pick c).1 (pick c).2 ∧
          overlapping.Depends (pick c).1 (pick c).2) ∧
        ¬ (overlapping.without (overlapping.cycles.map pick)).HasCircuit) := by
  have reachable : overlapping.Reachable := reachable_ofSteps _
  have listed : overlapping.cycles.length = 2 := by cbv
  have listed' : overlapping.hasCycles = true := by cbv
  obtain ⟨broken, hasCycles_iff, -⟩ := cycles_break_circuits reachable
  exact ⟨reachable, listed, hasCycles_iff.1 listed', broken⟩

end Graph

end LayerGraph
