import LayerGraph.Pipeline
import LayerGraph.Proofs.DeclaredGraph
import LayerGraph.Proofs.OrderOfGraph
import LayerGraph.Proofs.SameGraph

/-!
# Orders that are carried onto records

An assignment goes onto all records of its key and onto no others. So after assignments with
different keys have been written one by one, a record carries the one with its key, if there is one,
and is as it was before otherwise. The assignments of an ordered graph name each entity once, in the
order of their places.

Main statements:
1. `writeOrderOnto_eq`: what writing one assignment does to a list of records.
2. `carryAll_of_mem`, `carryAll_of_not_mem`: what a record carries after all of them.
3. `mem_assignments`, `keys_assignments_perm`, `pairwise_assignments`: what is written back for a
   graph.
-/

namespace LayerGraph

theorem EntityKind.nodeType_injective {a b : EntityKind} (h : a.nodeType = b.nodeType) : a = b := by
  cases a <;> cases b <;> first | rfl | cases h

theorem EntityKind.ofNodeType?_eq_some_iff {t : NodeType} {kind : EntityKind} :
    ofNodeType? t = some kind ↔ kind.nodeType = t := by
  cases t <;> cases kind <;> simp [ofNodeType?, nodeType]

theorem EntityKind.exists_ofNodeType? {k : NodeKey} (h : k.isExternal = false) :
    ∃ kind, ofNodeType? k.type = some kind := by
  obtain ⟨type, name⟩ := k
  cases type <;> first | exact ⟨_, rfl⟩ | cases h

namespace EntityRecord

variable {r : EntityRecord} {rs : List EntityRecord} {as : List Assignment} {a : Assignment}
  {kind : EntityKind}

/-! ## One assignment -/

/-- The record with the assignment on it, if it has its key. -/
def carry (r : EntityRecord) (a : Assignment) : EntityRecord :=
  if r.key = a.key then r.withOrder a.order a.layer else r

@[simp] theorem key_carry (r : EntityRecord) (a : Assignment) : (r.carry a).key = r.key := by
  unfold carry
  split <;> rfl

theorem isOf_iff {name : String} : r.isOf kind name = true ↔ r.key = ⟨kind.nodeType, name⟩ := by
  simp only [isOf, key, Bool.and_eq_true, decide_eq_true_eq, NodeKey.mk.injEq]
  exact and_congr_left fun _ => ⟨congrArg _, EntityKind.nodeType_injective⟩

/-- Writing an assignment that has records puts it onto these. -/
theorem writeOrderOnto_eq (hkind : EntityKind.ofNodeType? a.key.type = some kind)
    (hmem : ∃ r ∈ rs, r.key = a.key) :
    writeOrderOnto rs kind a.key.name a.order a.layer = some (rs.map (·.carry a)) := by
  have hkey : ⟨kind.nodeType, a.key.name⟩ = a.key := by
    rw [EntityKind.ofNodeType?_eq_some_iff.1 hkind]
  have hany : rs.any (isOf kind a.key.name) = true := by
    obtain ⟨r, hr, heq⟩ := hmem
    exact List.any_eq_true.2 ⟨r, hr, isOf_iff.2 (heq.trans hkey.symm)⟩
  rw [writeOrderOnto, if_pos hany]
  simp only [isOf_iff, hkey, carry]

/-! ## All assignments -/

/-- The record after the assignments have been written one by one. -/
def carryAll (as : List Assignment) (r : EntityRecord) : EntityRecord :=
  as.foldl carry r

theorem carryAll_concat (as : List Assignment) (a : Assignment) (r : EntityRecord) :
    r.carryAll (as ++ [a]) = (r.carryAll as).carry a := by
  rw [carryAll, List.foldl_append]
  rfl

@[simp] theorem key_carryAll (as : List Assignment) (r : EntityRecord) :
    (r.carryAll as).key = r.key := by
  induction as generalizing r with
  | nil => rfl
  | cons a rest ih => exact (ih (r.carry a)).trans (key_carry r a)

theorem carryAll_of_not_mem (h : ∀ a ∈ as, r.key ≠ a.key) : r.carryAll as = r := by
  induction as with
  | nil => rfl
  | cons a rest ih =>
    rw [carryAll, List.foldl_cons, carry, if_neg (h a List.mem_cons_self)]
    exact ih fun b hb => h b (List.mem_cons_of_mem a hb)

/-- Of assignments with different keys, the one with the record's key is carried. -/
theorem carryAll_of_mem (distinct : (as.map Assignment.key).Nodup) (ha : a ∈ as)
    (hkey : r.key = a.key) : r.carryAll as = r.withOrder a.order a.layer := by
  induction as generalizing r with
  | nil => exact absurd ha List.not_mem_nil
  | cons b rest ih =>
    obtain ⟨hnew, distinct⟩ := List.nodup_cons.1 distinct
    rw [carryAll, List.foldl_cons]
    rcases List.mem_cons.1 ha with rfl | ha
    · rw [carry, if_pos hkey]
      refine carryAll_of_not_mem fun c hc heq => hnew ?_
      exact List.mem_map.2 ⟨c, hc, heq.symm.trans hkey⟩
    · have hne : r.key ≠ b.key := fun heq =>
        hnew (List.mem_map.2 ⟨a, ha, hkey.symm.trans heq⟩)
      rw [carry, if_neg hne]
      exact ih distinct ha hkey

/-- Writing the same assignments once more changes nothing. -/
theorem carryAll_carryAll (distinct : (as.map Assignment.key).Nodup) (r : EntityRecord) :
    (r.carryAll as).carryAll as = r.carryAll as := by
  by_cases h : ∃ a ∈ as, r.key = a.key
  · obtain ⟨a, ha, hkey⟩ := h
    rw [carryAll_of_mem distinct ha ((key_carryAll as r).trans hkey),
      carryAll_of_mem distinct ha hkey]
    rfl
  · refine carryAll_of_not_mem fun a ha heq => h ⟨a, ha, ?_⟩
    exact (key_carryAll as r).symm.trans heq

end EntityRecord

/-! ## The assignments of an ordered graph -/

namespace Graph

open MigrationOrder

variable {g : Graph} {a : Assignment}

/-- The graph with its own order on it. -/
def ordered (g : Graph) : Graph :=
  (ofGraph g).apply g

theorem WellFormed.ordered (hg : g.WellFormed) : g.ordered.WellFormed :=
  hg.apply _

theorem order_le_of_le {a b : Assignment} (h : Sorted.le a b = true) : a.order ≤ b.order := by
  by_contra hlt
  have first : compare a.order b.order = .gt := Int.compare_eq_gt.2 (not_le.1 hlt)
  have whole : compare a b = .gt := by
    show (compareOn Assignment.order a b).then (compareOn Assignment.key a b) = .gt
    rw [compareOn, first]
    rfl
  rw [Sorted.le, whole] at h
  exact absurd h (by decide)

theorem mem_assignments (hg : g.WellFormed) : a ∈ g.ordered.assignments ↔
    a.key ∈ g.keys ∧ a.key.isExternal = false ∧ a.layer = a.key.layer ∧
      ∃ i : Nat, (ofGraph g).position? a.key = some i ∧ a.order = i := by
  have hnode : ∀ n : Node, n ∈ g.ordered.nodes →
      ∃ i : Nat, (ofGraph g).position? n.key = some i ∧ n.order = i := by
    intro n hn
    obtain ⟨i, hi, horder⟩ := order_apply hg hn
    exact ⟨i, (position?_eq_some_iff hg).2 hi, horder⟩
  rw [assignments, Sorted.mem_sort, List.mem_map]
  constructor
  · rintro ⟨n, hn, rfl⟩
    obtain ⟨hmem, hcond⟩ := List.mem_filter.1 hn
    simp only [Bool.and_eq_true, Bool.not_eq_true'] at hcond
    have hkey : n.key ∈ g.keys := by
      rw [← keys_withOrders (g := g)]
      exact List.mem_map_of_mem hmem
    exact ⟨hkey, hcond.1, rfl, hnode n hmem⟩
  · rintro ⟨hkey, hlocal, hlayer, i, hi, horder⟩
    have hkey' : a.key ∈ g.ordered.keys := by
      rw [Graph.ordered, MigrationOrder.apply, keys_withOrders]
      exact hkey
    obtain ⟨n, hn, hn_key⟩ := List.mem_map.1 hkey'
    obtain ⟨j, hj, hn_order⟩ := hnode n hn
    obtain rfl : i = j := by
      rw [hn_key, hi] at hj
      exact Option.some.inj hj
    refine ⟨n, List.mem_filter.2 ⟨hn, ?_⟩, ?_⟩
    · have hne : (i : Int) ≠ unordered := by
        unfold unordered
        omega
      simp [Node.isExternal, hn_key, hlocal, Node.isOrdered, hn_order, hne]
    · simp only [Assignment.ofNode, Node.layer, hn_key, hn_order, ← horder, ← hlayer]

theorem keys_assignments_perm (g : Graph) : (g.assignments.map Assignment.key).Perm
    ((g.nodes.filter fun n => !n.isExternal && n.isOrdered).map Node.key) := by
  refine ((Sorted.perm_sort _).map _).trans ?_
  rw [List.map_map]
  exact List.Perm.refl _

theorem WellFormed.nodup_keys_assignments (hg : g.WellFormed) :
    (g.assignments.map Assignment.key).Nodup :=
  (keys_assignments_perm g).nodup_iff.2 (hg.keys_nodup.sublist (List.filter_sublist.map _))

/-- The assignments go by place. -/
theorem pairwise_assignments (hg : g.WellFormed) :
    g.ordered.assignments.Pairwise fun a b => a.order < b.order := by
  have sorted : g.ordered.assignments.Pairwise fun a b => Sorted.le a b = true :=
    Sorted.pairwise_sort _
  have distinct := hg.ordered.nodup_keys_assignments
  refine (sorted.and (List.pairwise_map.1 distinct)).imp_of_mem ?_
  rintro a b ha hb ⟨hle, hne⟩
  obtain ⟨-, -, -, i, hi, ha_order⟩ := (mem_assignments hg).1 ha
  obtain ⟨-, -, -, j, hj, hb_order⟩ := (mem_assignments hg).1 hb
  rw [position?_eq_some_iff hg] at hi hj
  refine lt_of_le_of_ne (order_le_of_le hle) fun heq => hne ?_
  -- what stands at one place is one key
  obtain rfl : i = j := by omega
  exact Option.some.inj (hi.symm.trans hj)

end Graph

/-! ## Records and assignments of a graph that is built -/

namespace Build

variable {rs : List EntityRecord} {r : EntityRecord} {a : Assignment} {k : NodeKey}

theorem declares_iff :
    Declares rs k ↔ k ∈ (ofRecords rs).graph.keys ∧ k.isExternal = false := by
  rw [mem_keys_ofRecords]
  constructor
  · exact fun h => ⟨.inl h, h.not_external⟩
  · rintro ⟨h | ⟨-, -, target, -, -, rfl⟩, hlocal⟩
    · exact h
    · simp [NodeKey.isExternal] at hlocal

/-- What is written back for a graph that is built has records. -/
theorem declares_of_mem_assignments (ha : a ∈ (ofRecords rs).graph.ordered.assignments) :
    Declares rs a.key := by
  obtain ⟨hkey, hlocal, -⟩ := (Graph.mem_assignments (reachable_ofRecords rs).wellFormed).1 ha
  exact declares_iff.2 ⟨hkey, hlocal⟩

/-- Every entity has an assignment. -/
theorem exists_assignment (h : Declares rs k) :
    ∃ a ∈ (ofRecords rs).graph.ordered.assignments, a.key = k := by
  have hg := (reachable_ofRecords rs).wellFormed
  obtain ⟨hkey, hlocal⟩ := declares_iff.1 h
  obtain ⟨i, hi⟩ := MigrationOrder.exists_position? hg hkey
  exact ⟨⟨k, i, k.layer⟩, (Graph.mem_assignments hg).2 ⟨hkey, hlocal, rfl, i, hi, rfl⟩, rfl⟩

theorem isNamed_iff : r.isNamed = true ↔ r.key.name ≠ "" := by
  show _ ↔ Text.trim r.name ≠ ""
  rw [EntityRecord.isNamed, Bool.not_eq_true', ne_eq, Text.trim_eq_empty_iff, Bool.not_eq_true]

/-- Records without a name share no key with those that have one. -/
theorem ne_of_not_named (h : r.isNamed = false) (hk : Declares rs k) : r.key ≠ k := by
  obtain ⟨s, -, hnamed, rfl⟩ := hk
  intro heq
  rw [isNamed_iff, ← heq, ← isNamed_iff, h] at hnamed
  exact absurd hnamed Bool.false_ne_true

end Build

end LayerGraph
