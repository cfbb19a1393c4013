import LayerGraph.Graph.Assignment
import LayerGraph.Graph.Fingerprint
import LayerGraph.Graph.Order
import LayerGraph.Proofs.GraphInvariant
import Mathlib.Data.List.Nodup

/-!
# Graphs that differ in the order of growth only

Two graphs with the same nodes and the same edges may hold them in different orders. Nothing that is
answered about a graph tells them apart: keys, nodes and edges are listed in their own order, and
the search for cycles and the migration order start from these lists.

Main statements:
1. `sort_eq_of_perm`: sorting forgets the order of what is sorted.
2. `Same.cycles_eq`, `Same.order_eq`: cycles and migration orders are the same.
3. `Same.assignments_eq`, `Same.fingerprintText_eq`: so is what is written back, and the text that is
   digested.
-/

namespace LayerGraph

namespace Sorted

variable {α : Type} {xs ys : List α}

theorem mergeSort_eq_of_perm {le : α → α → Bool}
    (trans : ∀ a b c, le a b = true → le b c = true → le a c = true)
    (total : ∀ a b, (le a b || le b a) = true)
    (antisymm : ∀ a ∈ xs, ∀ b ∈ xs, le a b = true → le b a = true → a = b) (h : xs.Perm ys) :
    xs.mergeSort le = ys.mergeSort le := by
  refine List.Perm.eq_of_pairwise ?_ (List.pairwise_mergeSort trans total xs)
    (List.pairwise_mergeSort trans total ys)
    ((List.mergeSort_perm xs le).trans (h.trans (List.mergeSort_perm ys le).symm))
  intro a b ha hb
  exact antisymm a (List.mem_mergeSort.1 ha) b (h.mem_iff.2 (List.mem_mergeSort.1 hb))

variable [Ord α] [Std.TransOrd α]

theorem le_trans (a b c : α) (hab : le a b = true) (hbc : le b c = true) : le a c = true :=
  Std.TransCmp.isLE_trans hab hbc

theorem le_total (a b : α) : (le a b || le b a) = true := by
  unfold le
  rw [Std.OrientedOrd.eq_swap (a := b) (b := a)]
  cases compare a b <;> rfl

theorem compare_eq_of_le_of_le {a b : α} (hab : le a b = true) (hba : le b a = true) :
    compare a b = .eq := by
  unfold le at hab hba
  rw [Std.OrientedOrd.eq_swap (a := b) (b := a)] at hba
  cases h : compare a b <;> simp_all

/-- Sorting forgets the order of what is sorted, as far as the comparison tells elements apart. -/
theorem sort_eq_of_perm_of_eq (antisymm : ∀ a ∈ xs, ∀ b ∈ xs, compare a b = .eq → a = b)
    (h : xs.Perm ys) : sort xs = sort ys :=
  mergeSort_eq_of_perm le_trans le_total
    (fun a ha b hb hab hba => antisymm a ha b hb (compare_eq_of_le_of_le hab hba)) h

variable [Std.LawfulEqOrd α]

theorem sort_eq_of_perm (h : xs.Perm ys) : sort xs = sort ys :=
  sort_eq_of_perm_of_eq (fun _ _ _ _ => Std.LawfulEqOrd.eq_of_compare) h

theorem distinct_eq_of_perm (h : xs.Perm ys) : distinct xs = distinct ys := by
  rw [distinct, sort_eq_of_perm h, distinct]

end Sorted

namespace Graph

variable {g g' : Graph}

/-- A well-formed graph has one node for a key. -/
theorem WellFormed.eq_of_key_eq (hg : g.WellFormed) {n m : Node} (hn : n ∈ g.nodes)
    (hm : m ∈ g.nodes) (hkey : n.key = m.key) : n = m :=
  List.inj_on_of_nodup_map hg.keys_nodup hn hm hkey

theorem WellFormed.apply (hg : g.WellFormed) (o : MigrationOrder) : (o.apply g).WellFormed :=
  hg.withOrders _

/-- The same nodes and the same edges, in whatever orders. -/
structure Same (g g' : Graph) : Prop where
  nodes : g.nodes.Perm g'.nodes
  edges : g.edges.Perm g'.edges

namespace Same

theorem keys_perm (h : Same g g') : g.keys.Perm g'.keys :=
  h.nodes.map Node.key

theorem sortedKeys_eq (h : Same g g') : g.sortedKeys = g'.sortedKeys :=
  Sorted.sort_eq_of_perm h.keys_perm

theorem sortedEdges_eq (h : Same g g') : g.sortedEdges = g'.sortedEdges :=
  Sorted.sort_eq_of_perm h.edges

theorem successors_eq (h : Same g g') : g.successors = g'.successors := by
  funext k
  exact Sorted.distinct_eq_of_perm ((h.edges.filter _).map Edge.target)

theorem inDegree_eq (h : Same g g') : g.inDegree = g'.inDegree := by
  funext k
  exact h.edges.countP_eq _

theorem ofMembers?_eq (h : Same g g') : Cycle.ofMembers? g = Cycle.ofMembers? g' := by
  funext members
  unfold Cycle.ofMembers?
  rw [h.inDegree_eq]

theorem cycles_eq (h : Same g g') : g.cycles = g'.cycles := by
  unfold cycles
  rw [h.ofMembers?_eq, h.successors_eq, h.sortedKeys_eq]

theorem step_eq (h : Same g g') (d : Draft) : d.step g = d.step g' := by
  have drop_eq : d.dependencyToDrop? g = d.dependencyToDrop? g' := by
    unfold Draft.dependencyToDrop? Draft.cycle?
    rw [h.ofMembers?_eq]
  unfold Draft.step
  rw [drop_eq]

theorem run_eq (h : Same g g') (n : Nat) (d : Draft) : Draft.run g n d = Draft.run g' n d := by
  induction n generalizing d with
  | zero => rfl
  | succ n ih => rw [Draft.run, Draft.run, h.step_eq, ih]

theorem order_eq (h : Same g g') : MigrationOrder.ofGraph g = MigrationOrder.ofGraph g' := by
  have members_eq : Draft.ofMembers g = Draft.ofMembers g' := by
    funext members
    unfold Draft.ofMembers Draft.start
    rw [h.successors_eq]
    exact h.run_eq _ _
  unfold MigrationOrder.ofGraph
  rw [h.sortedKeys_eq, members_eq]

theorem withOrders (h : Same g g') (order? : NodeKey → Option Int) :
    Same (g.withOrders order?) (g'.withOrders order?) :=
  ⟨h.nodes.map _, h.edges⟩

theorem apply (h : Same g g') (o : MigrationOrder) : Same (o.apply g) (o.apply g') :=
  h.withOrders _

theorem sortedNodes_eq (h : Same g g') (hg : g.WellFormed) : g.sortedNodes = g'.sortedNodes := by
  refine Sorted.mergeSort_eq_of_perm (fun a b c => Sorted.le_trans a.key b.key c.key)
    (fun a b => Sorted.le_total a.key b.key) (fun a ha b hb hab hba => ?_) h.nodes
  exact hg.eq_of_key_eq ha hb (Std.LawfulEqOrd.eq_of_compare
    (Sorted.compare_eq_of_le_of_le hab hba))

theorem fingerprintText_eq (h : Same g g') (hg : g.WellFormed) :
    g.fingerprintText = g'.fingerprintText := by
  unfold fingerprintText
  rw [h.sortedNodes_eq hg, h.sortedEdges_eq]

end Same

end Graph

instance : Std.TransOrd Assignment :=
  inferInstanceAs (Std.TransCmp
    (compareLex (compareOn Assignment.order) (compareOn Assignment.key)))

theorem Assignment.compare_eq_iff {a b : Assignment} :
    compare a b = .eq ↔ a.order = b.order ∧ a.key = b.key := by
  have lex : compare a b = .eq ↔ compare a.order b.order = .eq ∧ compare a.key b.key = .eq :=
    compareLex_eq_eq
  rw [lex, Std.LawfulEqOrd.compare_eq_iff_eq, Std.LawfulEqOrd.compare_eq_iff_eq]

theorem Graph.Same.assignments_eq {g g' : Graph} (h : Graph.Same g g') :
    g.assignments = g'.assignments := by
  refine Sorted.sort_eq_of_perm_of_eq ?_ ((h.nodes.filter _).map _)
  intro a ha b hb hab
  obtain ⟨n, -, rfl⟩ := List.mem_map.1 ha
  obtain ⟨m, -, rfl⟩ := List.mem_map.1 hb
  obtain ⟨horder, hkey⟩ := Assignment.compare_eq_iff.1 hab
  -- the layer follows from the key
  have hlayer : n.layer = m.layer := congrArg NodeKey.layer hkey
  simp_all [Assignment.ofNode]

end LayerGraph
