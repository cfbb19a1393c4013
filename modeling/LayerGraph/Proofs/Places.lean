import LayerGraph.Graph.Cycle
import Mathlib.Data.List.Chain
import Mathlib.Data.List.Rotate
import Mathlib.Logic.Relation

/-!
# Places in a list

Two ways in which the elements of a list follow each other. `Before` says which of two comes first;
orders and the paths of a search are compared by it. `Next` reads a list round its end, as the
members of a cycle are read.

Main statements:
1. `before_iff_getElem?`, `not_before_of_before`: `Before` compares places, and where nothing is
   repeated it does not hold both ways.
2. `next_iff_of_isRotated`: `Next` does not depend on the element from which a list is written.
3. `transGen_of_mem`: a relation that holds round the end leads from every element to every other.
-/

namespace LayerGraph.Places

variable {ks ls : List NodeKey} {u v : NodeKey} {R : NodeKey → NodeKey → Prop}

/-! ## Which of two comes first -/

/-- `u` stands somewhere before `v`. -/
def Before (ks : List NodeKey) (u v : NodeKey) : Prop :=
  [u, v].Sublist ks

theorem Before.mono (h : Before ks u v) (sub : ks.Sublist ls) : Before ls u v :=
  h.trans sub

theorem Before.left_mem (h : Before ks u v) : u ∈ ks :=
  h.subset List.mem_cons_self

theorem Before.filter {p : NodeKey → Bool} (h : Before ks u v) (hu : p u = true) (hv : p v = true) :
    Before (ks.filter p) u v := by
  have kept := List.Sublist.filter p h
  rw [List.filter_cons_of_pos hu, List.filter_cons_of_pos hv] at kept
  exact kept

theorem before_append (hu : u ∈ ks) (hv : v ∈ ls) : Before (ks ++ ls) u v :=
  (List.singleton_sublist.2 hu).append (List.singleton_sublist.2 hv)

/-- A list holds its elements in the order of their places. -/
theorem pairwise_before (ks : List NodeKey) : ks.Pairwise (Before ks) :=
  List.pairwise_iff_forall_sublist.2 fun h => h

theorem before_iff_getElem? :
    Before ks u v ↔ ∃ i j : Nat, i < j ∧ ks[i]? = some u ∧ ks[j]? = some v := by
  constructor
  · intro h
    induction ks with
    | nil => exact absurd h.left_mem List.not_mem_nil
    | cons k rest ih =>
      rcases List.sublist_cons_iff.1 h with h | ⟨tail, heq, htail⟩
      · obtain ⟨i, j, hij, hi, hj⟩ := ih h
        exact ⟨i + 1, j + 1, Nat.succ_lt_succ hij, hi, hj⟩
      · obtain ⟨rfl, rfl⟩ := List.cons.inj heq
        obtain ⟨j, hj⟩ := List.mem_iff_getElem?.1 (List.singleton_sublist.1 htail)
        exact ⟨0, j + 1, Nat.succ_pos j, rfl, hj⟩
  · rintro ⟨i, j, hij, hi, hj⟩
    obtain ⟨hi', rfl⟩ := List.getElem?_eq_some_iff.1 hi
    obtain ⟨hj', rfl⟩ := List.getElem?_eq_some_iff.1 hj
    exact List.pairwise_iff_getElem.1 (pairwise_before ks) i j hi' hj' hij

theorem place_unique (nodup : ks.Nodup) {i j : Nat} (hi : ks[i]? = some u) (hj : ks[j]? = some u) :
    i = j :=
  (List.getElem?_inj (List.getElem?_eq_some_iff.1 hi).1 nodup).1 (hi.trans hj.symm)

theorem not_before_of_before (nodup : ks.Nodup) (h : Before ks u v) : ¬ Before ks v u := by
  intro h'
  obtain ⟨i, j, hij, hi, hj⟩ := before_iff_getElem?.1 h
  obtain ⟨a, b, hab, ha, hb⟩ := before_iff_getElem?.1 h'
  have hib : i = b := place_unique nodup hi hb
  have hja : j = a := place_unique nodup hj ha
  omega

theorem idxOf_lt_of_before (nodup : ks.Nodup) (h : Before ks u v) : ks.idxOf u < ks.idxOf v := by
  obtain ⟨i, j, hij, hi, hj⟩ := before_iff_getElem?.1 h
  obtain ⟨hi', rfl⟩ := List.getElem?_eq_some_iff.1 hi
  obtain ⟨hj', rfl⟩ := List.getElem?_eq_some_iff.1 hj
  rw [nodup.idxOf_getElem i hi', nodup.idxOf_getElem j hj']
  exact hij

/-- Of two elements of a list, one comes first. -/
theorem before_or_before (hu : u ∈ ks) (hv : v ∈ ks) (hne : u ≠ v) :
    Before ks u v ∨ Before ks v u := by
  obtain ⟨i, hi⟩ := List.mem_iff_getElem?.1 hu
  obtain ⟨j, hj⟩ := List.mem_iff_getElem?.1 hv
  rcases Nat.lt_trichotomy i j with hij | rfl | hji
  · exact .inl (before_iff_getElem?.2 ⟨i, j, hij, hi, hj⟩)
  · exact absurd (Option.some.inj (hi.symm.trans hj)) hne
  · exact .inr (before_iff_getElem?.2 ⟨j, i, hji, hj, hi⟩)

theorem idxOf?_eq_some_iff (nodup : ks.Nodup) {i : Nat} :
    ks.idxOf? u = some i ↔ ks[i]? = some u := by
  rw [List.idxOf?_eq_some_iff]
  constructor
  · rintro ⟨hi, heq, _⟩
    exact List.getElem?_eq_some_iff.2 ⟨hi, heq⟩
  · intro h
    obtain ⟨hi, heq⟩ := List.getElem?_eq_some_iff.1 h
    refine ⟨hi, heq, fun j hji heq' => ?_⟩
    have hj : ks[j]? = some u := List.getElem?_eq_some_iff.2 ⟨Nat.lt_trans hji hi, heq'⟩
    exact Nat.ne_of_lt hji (place_unique nodup hj h)

/-! ## Round the end -/

/-- `v` stands right after `u` when the list is read round its end. -/
def Next (ks : List NodeKey) (u v : NodeKey) : Prop :=
  ∃ i, ks[i]? = some u ∧ ks[(i + 1) % ks.length]? = some v

theorem Next.left_mem (h : Next ks u v) : u ∈ ks := by
  obtain ⟨i, hi, _⟩ := h
  exact List.mem_of_getElem? hi

theorem Next.right_mem (h : Next ks u v) : v ∈ ks := by
  obtain ⟨i, _, hi⟩ := h
  exact List.mem_of_getElem? hi

theorem exists_next (hu : u ∈ ks) : ∃ v, Next ks u v := by
  obtain ⟨i, hi, rfl⟩ := List.getElem_of_mem hu
  have hlt : (i + 1) % ks.length < ks.length := Nat.mod_lt _ (Nat.zero_lt_of_lt hi)
  exact ⟨_, i, List.getElem?_eq_getElem hi, List.getElem?_eq_getElem hlt⟩

/-- A list that leads from one element on to another one has at least two. -/
theorem Next.two_le_length (h : Next ks u v) (hne : u ≠ v) : 2 ≤ ks.length := by
  by_contra hshort
  have hmem := h.left_mem
  have hmem' := h.right_mem
  have single : ks.length = 1 := by
    have := List.length_pos_of_mem hmem
    omega
  obtain ⟨k, rfl⟩ := List.length_eq_one_iff.1 single
  exact hne ((List.mem_singleton.1 hmem).trans (List.mem_singleton.1 hmem').symm)

theorem next_of_rotate {n : Nat} (h : Next (ks.rotate n) u v) : Next ks u v := by
  obtain ⟨i, hi, hj⟩ := h
  have hlt : i < ks.length := by
    simpa using (List.getElem?_eq_some_iff.1 hi).1
  have hlt' : (i + 1) % ks.length < ks.length := Nat.mod_lt _ (Nat.zero_lt_of_lt hlt)
  rw [List.getElem?_rotate hlt] at hi
  rw [List.length_rotate, List.getElem?_rotate hlt'] at hj
  refine ⟨_, hi, ?_⟩
  have place : ((i + 1) % ks.length + n) % ks.length = ((i + n) % ks.length + 1) % ks.length := by
    rw [Nat.mod_add_mod, Nat.mod_add_mod, Nat.add_right_comm]
  rw [← place]
  exact hj

/-- From which element a closed list is written makes no difference. -/
theorem next_iff_of_isRotated (h : ks ~r ls) : Next ks u v ↔ Next ls u v := by
  constructor
  · obtain ⟨n, hn⟩ := h.symm
    intro hnext
    exact next_of_rotate (hn ▸ hnext)
  · obtain ⟨n, hn⟩ := h
    intro hnext
    exact next_of_rotate (hn ▸ hnext)

theorem isChain_next (ks : List NodeKey) : ks.IsChain (Next ks) := by
  rw [List.isChain_iff_getElem]
  intro i hi
  refine ⟨i, List.getElem?_eq_getElem _, ?_⟩
  rw [Nat.mod_eq_of_lt hi]
  exact List.getElem?_eq_getElem _

theorem next_getLast?_head? (hu : ks.getLast? = some u) (hv : ks.head? = some v) :
    Next ks u v := by
  rw [List.getLast?_eq_getElem?] at hu
  rw [List.head?_eq_getElem?] at hv
  have hpos : 0 < ks.length := (List.getElem?_eq_some_iff.1 hv).1
  refine ⟨ks.length - 1, hu, ?_⟩
  rw [Nat.sub_add_cancel hpos, Nat.mod_self]
  exact hv

/-- A relation along a list that also leads from its last element to the first holds round the
end. -/
theorem rel_of_next (chain : ks.IsChain R)
    (closes : ∀ u v, ks.getLast? = some u → ks.head? = some v → R u v) (h : Next ks u v) :
    R u v := by
  obtain ⟨i, hi, hj⟩ := h
  obtain ⟨hlt, rfl⟩ := List.getElem?_eq_some_iff.1 hi
  rcases Nat.lt_or_ge (i + 1) ks.length with hsucc | hend
  · rw [Nat.mod_eq_of_lt hsucc, List.getElem?_eq_getElem hsucc] at hj
    obtain rfl := Option.some.inj hj
    exact List.isChain_iff_getElem.1 chain i hsucc
  · have hlast : i + 1 = ks.length := Nat.le_antisymm hlt hend
    rw [hlast, Nat.mod_self, ← List.head?_eq_getElem?] at hj
    refine closes _ _ ?_ hj
    rw [List.getLast?_eq_getElem?, ← hlast, Nat.add_sub_cancel]
    exact hi

/-- A closed list can be written so that a given element is the last one. -/
theorem exists_isRotated_concat (hv : v ∈ ks) : ∃ front, ks ~r (front ++ [v]) := by
  obtain ⟨before, after, rfl⟩ := List.append_of_mem hv
  refine ⟨after ++ before, ?_⟩
  rw [List.append_cons, List.append_assoc after]
  exact List.isRotated_append

/-- A relation that holds round the end of a list leads from every element to every other. -/
theorem transGen_of_mem (holds : ∀ u v, Next ks u v → R u v) (hu : u ∈ ks) (hv : v ∈ ks) :
    Relation.TransGen R u v := by
  obtain ⟨front, rotated⟩ := exists_isRotated_concat hv
  have chain : (front ++ [v]).IsChain R :=
    (isChain_next _).imp fun a b h => holds a b ((next_iff_of_isRotated rotated).2 h)
  obtain ⟨w, hw⟩ := exists_next hu
  refine Relation.TransGen.head' (holds u w hw) ?_
  rcases List.mem_append.1 (rotated.mem_iff.1 hw.right_mem) with hfront | hlast
  · exact chain.backwards_concat_induction (Relation.ReflTransGen R · v) _
      (fun _ _ => Relation.ReflTransGen.head) .refl w hfront
  · exact List.mem_singleton.1 hlast ▸ .refl

end LayerGraph.Places
