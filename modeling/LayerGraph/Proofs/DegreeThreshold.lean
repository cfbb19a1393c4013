import LayerGraph.Proofs.Degrees
import LayerGraph.Proofs.KeyText
import LayerGraph.Proofs.ShortestPaths

/-!
# Thresholds for busy nodes

A stored graph is asked for the nodes with so many edges by a word of 64 bits, and compares numbers
as signed words. From 2^63 on a threshold is negative there, which every node reaches: instead of no
node at all the stored graph then lists all of them. A query for hubs filters the list once more and
so shows nothing of this.

Main statements:
1. `signedWord_of_le`, `signedWord_le_iff`: how a stored graph compares a threshold, and which numbers
   reach it.
2. `listsDegrees_degreeCounts`: what is listed has enough edges for the threshold as it is compared.
3. `GraphStore.degreeCounts_exact`: what a store answers, and for which thresholds this is right.
-/

namespace LayerGraph

namespace StoredGraph

variable {m : StoredGraph} {k : NodeKey} {c : DegreeCount} {n least : Nat}

/-! ## What a list of busy nodes has to be -/

/-- The number of edges at a node. -/
def DegreeCount.total (c : DegreeCount) : Nat := c.incoming + c.outgoing

/-- The busier of two nodes comes first, and of nodes that are equally busy the one with the smaller
text. -/
def DegreeCount.Precedes (a b : DegreeCount) : Prop :=
  b.total < a.total ∨ (a.total = b.total ∧ compare a.key.text b.key.text = .lt)

/-- The numbers are those of the stored edges into the node and out of it. -/
structure DegreeCount.IsTrue (m : StoredGraph) (c : DegreeCount) : Prop where
  incoming : {e | e ∈ m.edgeList ∧ e.target = c.key}.encard = c.incoming
  outgoing : {e | e ∈ m.edgeList ∧ e.source = c.key}.encard = c.outgoing

/-- What a list of the busy nodes of a stored graph has to be: each node with enough edges once, with
its true numbers, in the order of `DegreeCount.Precedes`. -/
structure ListsDegrees (m : StoredGraph) (least : Nat) (cs : List DegreeCount) : Prop where
  mem_iff : ∀ c, c ∈ cs ↔ c.key ∈ m.keys ∧ c.IsTrue m ∧ least ≤ c.total
  once : (cs.map DegreeCount.key).Nodup
  order : cs.Pairwise DegreeCount.Precedes

/-- Edges of a kind, counted row by row: no edge has two rows. -/
theorem Keyed.encard_edges (h : m.Keyed) (p : Edge → Bool) :
    {e | e ∈ m.edgeList ∧ p e = true}.encard = m.edges.countP fun r => p r.edge := by
  rw [encard_eq_length (h.edges.filter p) fun e => List.mem_filter, ← List.countP_eq_length_filter,
    edgeList, List.countP_map]
  rfl

theorem Keyed.isTrue_iff (h : m.Keyed) :
    c.IsTrue m ↔ c.incoming = m.incoming c.key ∧ c.outgoing = m.outgoing c.key := by
  have into := h.encard_edges fun e => e.target = c.key
  have out := h.encard_edges fun e => e.source = c.key
  simp only [decide_eq_true_eq] at into out
  constructor
  · rintro ⟨incoming, outgoing⟩
    rw [into, Nat.cast_inj] at incoming
    rw [out, Nat.cast_inj] at outgoing
    exact ⟨incoming.symm, outgoing.symm⟩
  · rintro ⟨incoming, outgoing⟩
    exact ⟨into.trans (congrArg _ incoming.symm), out.trans (congrArg _ outgoing.symm)⟩

/-! ## Thresholds -/

/-- The threshold that is applied in place of a word. -/
def appliedThreshold (n : Nat) : Nat :=
  if n < 2 ^ 63 then n else 0

theorem signedWord_of_lt (small : n < 2 ^ 63) : signedWord n = n := by
  unfold signedWord UInt64.size
  exact Int.bmod_eq_of_le (by omega) (by omega)

/-- A word from 2^63 on is compared as a negative number. -/
theorem signedWord_of_le (large : 2 ^ 63 ≤ n) (hn : n < UInt64.size) :
    signedWord n = (n : Int) - UInt64.size := by
  have wrapped : ((n : Int) - UInt64.size).bmod UInt64.size = (n : Int) - UInt64.size := by
    unfold UInt64.size at hn ⊢
    exact Int.bmod_eq_of_le (by omega) (by omega)
  rw [← wrapped, Int.sub_bmod_right]
  rfl

/-- Every number reaches a threshold that is compared as a negative one. -/
theorem signedWord_le_iff (hn : n < UInt64.size) (total : Nat) :
    signedWord n ≤ (total : Int) ↔ appliedThreshold n ≤ total := by
  unfold appliedThreshold
  by_cases small : n < 2 ^ 63
  · rw [signedWord_of_lt small, if_pos small, Int.ofNat_le]
  · rw [signedWord_of_le (Nat.le_of_not_lt small) hn, if_neg small]
    exact iff_of_true (by omega) (Nat.zero_le total)

theorem pairwise_degreeCounts (h : m.Keyed) (least : Nat) :
    (m.degreeCounts least).Pairwise DegreeCount.Precedes := by
  have apart {cs : List DegreeCount} (distinct : (cs.map DegreeCount.key).Nodup) :
      (cs.map fun c => c.key.text).Nodup := by
    have texts := distinct.map fun _ _ same => NodeKey.text_injective same
    rwa [List.map_map] at texts
  unfold degreeCounts
  refine List.Pairwise.filter _ ?_
  exact pairwise_busierFirst DegreeCount.total (fun c => c.key.text)
    (apart ((nodup_counts h).sublist (List.filter_sublist.map _)))

theorem listsDegrees_degreeCounts (keyed : m.Keyed) (readable : m.Readable)
    (hleast : least < UInt64.size) :
    ListsDegrees m (appliedThreshold least) (m.degreeCounts least) where
  mem_iff c := by
    rw [mem_degreeCounts, keyed.isTrue_iff, signedWord_le_iff hleast, and_assoc]
    refine and_congr_right fun hk => and_iff_right (readable.nodes c.key hk)
  once := nodup_degreeCounts keyed least
  order := pairwise_degreeCounts keyed least

/-- The threshold that is applied does for the one that was asked for where both leave out the same
nodes. -/
theorem listsDegrees_iff {cs : List DegreeCount} (keyed : m.Keyed)
    (lists : ListsDegrees m (appliedThreshold n) cs) : ListsDegrees m n cs ↔
      n < 2 ^ 63 ∨ ∀ k ∈ m.keys, n ≤ m.incoming k + m.outgoing k := by
  constructor
  · intro asked
    by_cases small : n < 2 ^ 63
    · exact .inl small
    · -- what is applied instead of a large threshold leaves out no node
      refine .inr fun k hk => ?_
      have isTrue : DegreeCount.IsTrue m ⟨k, m.incoming k, m.outgoing k⟩ :=
        keyed.isTrue_iff.2 ⟨rfl, rfl⟩
      have applied : appliedThreshold n = 0 := if_neg small
      have listed := (lists.mem_iff _).2 ⟨hk, isTrue, applied ▸ Nat.zero_le _⟩
      exact ((asked.mem_iff _).1 listed).2.2
  · rintro (small | reached)
    · rwa [appliedThreshold, if_pos small] at lists
    · refine { lists with mem_iff := fun c => ?_ }
      rw [lists.mem_iff]
      refine and_congr_right fun hk => and_congr_right fun isTrue => ?_
      have enough : n ≤ c.total := by
        obtain ⟨incoming, outgoing⟩ := keyed.isTrue_iff.1 isTrue
        rw [DegreeCount.total, incoming, outgoing]
        exact reached c.key hk
      exact iff_of_true (le_trans (by unfold appliedThreshold; split <;> omega) enough) enough

end StoredGraph

namespace GraphStore

open StoredGraph

/-- What a store answers, whatever has been written to it: the nodes with enough edges for the
threshold that is applied. These are the nodes that were asked for unless the threshold is 2^63 or
more and some node has fewer edges. -/
theorem degreeCounts_exact {ws : List Write} {s : GraphStore} {disk : Disk} {timeout : Duration}
    (named : ∀ w ∈ ws, w.IsNamed)
    (answers : s.Answers disk timeout [.degreeCounts] (ws.foldl StoredGraph.after {}))
    (least : UInt64) :
    let m := ws.foldl StoredGraph.after {}
    ∃ cs, (s.ask disk timeout .degreeCounts (·.degreeCounts least.toNat)).1 = .ok cs ∧
      ListsDegrees m (appliedThreshold least.toNat) cs ∧
      (ListsDegrees m least.toNat cs ↔
        least.toNat < 2 ^ 63 ∨ ∀ k ∈ m.keys, least.toNat ≤ m.incoming k + m.outgoing k) := by
  intro m
  have keyed : m.Keyed := keyed_foldl_after ws
  have lists := listsDegrees_degreeCounts keyed (readable_foldl_after named) least.toNat_lt
  obtain ⟨s', disk', asked, -⟩ := answers.ask .degreeCounts (by decide) (·.degreeCounts least.toNat)
  exact ⟨m.degreeCounts least.toNat, by rw [asked], lists, listsDegrees_iff keyed lists⟩

/-- Of two tables with four edges and with three, one is listed under the threshold four. -/
theorem degreeCounts_exact_diamond :
    let s : GraphStore := { place := .memory (diamondWrites.foldl StoredGraph.after {}) }
    let timeout := ({} : QueryLimits).timeout
    (∀ w ∈ diamondWrites, w.IsNamed) ∧
      (s.ask {} timeout .degreeCounts (·.degreeCounts 4)).1 = .ok [⟨⟨.table, "S"⟩, 2, 2⟩] ∧
      ListsDegrees diamond 4 [⟨⟨.table, "S"⟩, 2, 2⟩] := by
  intro s timeout
  have named : ∀ w ∈ diamondWrites, w.IsNamed := by decide
  have answers := answers_memory (diamondWrites.foldl StoredGraph.after {}) {} timeout
    [.degreeCounts]
  obtain ⟨cs, asked, lists, -⟩ := degreeCounts_exact named answers 4
  have four : (4 : UInt64).toNat = 4 := rfl
  have counts : (diamondWrites.foldl StoredGraph.after {}).degreeCounts 4 =
      [⟨⟨.table, "S"⟩, 2, 2⟩] := by decide +kernel
  have evaluated : (s.ask {} timeout .degreeCounts (·.degreeCounts 4)).1 =
      .ok [⟨⟨.table, "S"⟩, 2, 2⟩] := congrArg _ counts
  rw [four] at asked lists
  cases evaluated.symm.trans asked
  rw [diamond_eq] at lists
  exact ⟨named, evaluated, lists⟩

/-- A store with one node that has no edges lists it when it is asked for nodes with 2^63 edges. -/
theorem degreeCounts_lists_idle :
    let ws : List Write := [.node ⟨⟨.table, "T"⟩, -1⟩ "run"]
    let m := ws.foldl StoredGraph.after {}
    let s : GraphStore := { place := .memory m }
    let timeout := ({} : QueryLimits).timeout
    (∀ w ∈ ws, w.IsNamed) ∧ s.Answers {} timeout [.degreeCounts] m ∧ 2 ^ 63 < UInt64.size ∧
      (s.ask {} timeout .degreeCounts (·.degreeCounts (2 ^ 63))).1 = .ok [⟨⟨.table, "T"⟩, 0, 0⟩] ∧
      ¬ ListsDegrees m (2 ^ 63) [⟨⟨.table, "T"⟩, 0, 0⟩] := by
  intro ws m s timeout
  have counts : m.degreeCounts (2 ^ 63) = [⟨⟨.table, "T"⟩, 0, 0⟩] := by decide +kernel
  refine ⟨by decide, answers_memory m {} _ _, by decide, congrArg _ counts, fun lists => ?_⟩
  obtain ⟨-, -, busy⟩ := (lists.mem_iff ⟨⟨.table, "T"⟩, 0, 0⟩).1 List.mem_cons_self
  exact absurd busy (by decide)

end GraphStore

end LayerGraph
