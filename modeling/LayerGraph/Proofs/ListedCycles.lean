import LayerGraph.Proofs.DraftMoves
import LayerGraph.Proofs.SameGraph
import LayerGraph.Proofs.TypeCircles

/-!
# The cycles that a graph lists

Each listed cycle is a circle of the graph: different nodes, at least two, each of which depends on
the next one and the last one on the first. It is written from its smallest key on, so a circle that
were listed twice, cut at two places, would be written twice in the same way, and the search does not
list anything twice.

Main statements:
1. `map_follow?`: going from member to member is reading the list of members round its end.
2. `eq_of_isRotated`: a circle is written in one way only.
3. `cycles_elementary`: what holds of the cycles of a graph.
-/

namespace LayerGraph

open Places

/-! ## Going round a cycle -/

namespace Cycle

variable {c : Cycle} {k : NodeKey}

/-- Where one is after going on to the next member so many times. -/
def follow? (c : Cycle) (k : NodeKey) : Nat → Option NodeKey
  | 0 => some k
  | n + 1 => (c.follow? k n).bind c.successorOf?

theorem successorOf?_eq (nodup : c.members.Nodup) {i : Nat} (hi : c.members[i]? = some k) :
    c.successorOf? k = c.members[(i + 1) % c.members.length]? := by
  rw [successorOf?, (idxOf?_eq_some_iff nodup).2 hi]

/-- From the member at place `i`, one comes to the one `n` places further round the end. -/
theorem follow?_eq (nodup : c.members.Nodup) {i : Nat} (hi : c.members[i]? = some k) (n : Nat) :
    c.follow? k n = c.members[(i + n) % c.members.length]? := by
  have hlt : i < c.members.length := (List.getElem?_eq_some_iff.1 hi).1
  induction n with
  | zero => rw [Nat.add_zero, Nat.mod_eq_of_lt hlt, hi, follow?]
  | succ n ih =>
    have hplace : (i + n) % c.members.length < c.members.length :=
      Nat.mod_lt _ (Nat.zero_lt_of_lt hlt)
    rw [follow?, ih, List.getElem?_eq_getElem hplace, Option.bind_some,
      successorOf?_eq nodup (List.getElem?_eq_getElem hplace), Nat.mod_add_mod, Nat.add_assoc]

/-- The members that one comes to in one round are those of the cycle, read from the first one. -/
theorem map_follow? (nodup : c.members.Nodup) {i : Nat} (hi : c.members[i]? = some k) :
    (List.range c.members.length).map (c.follow? k) = (c.members.rotate i).map some := by
  refine List.ext_getElem? fun n => ?_
  rw [List.getElem?_map, List.getElem?_map]
  by_cases hn : n < c.members.length
  · have hplace : (i + n) % c.members.length < c.members.length :=
      Nat.mod_lt _ (Nat.zero_lt_of_lt hn)
    rw [List.getElem?_range hn, List.getElem?_rotate hn, Option.map_some, follow?_eq nodup hi,
      Nat.add_comm n i, List.getElem?_eq_getElem hplace, Option.map_some]
  · rw [List.getElem?_eq_none (by simpa using hn), List.getElem?_eq_none (by simpa using hn)]
    rfl

end Cycle

/-! ## Writing a circle -/

/-- A circle that is written from its smallest key on is written in one way only. -/
theorem eq_of_isRotated {as bs : List NodeKey} (nodup : as.Nodup) (rotated : as ~r bs)
    (hleast : ∃ k, as.head? = some k ∧ ∀ j ∈ as, Sorted.le k j = true)
    (hleast' : ∃ k, bs.head? = some k ∧ ∀ j ∈ bs, Sorted.le k j = true) : as = bs := by
  obtain ⟨k, hk, below⟩ := hleast
  obtain ⟨k', hk', below'⟩ := hleast'
  have hle : Sorted.le k k' = true := below k' (rotated.mem_iff.2 (List.mem_of_head? hk'))
  have hle' : Sorted.le k' k = true := below' k (rotated.mem_iff.1 (List.mem_of_head? hk))
  obtain rfl : k = k' := Std.LawfulEqOrd.eq_of_compare (Sorted.compare_eq_of_le_of_le hle hle')
  obtain ⟨n, hn⟩ := rotated
  have hpos : 0 < as.length := List.length_pos_of_mem (List.mem_of_head? hk)
  rw [← List.rotate_mod] at hn
  -- the rotation takes the first key to the front again, so it is none
  have hplace : as[n % as.length]? = some k := by
    rw [← List.head?_rotate (Nat.mod_lt n hpos), hn]
    exact hk'
  rw [List.head?_eq_getElem?] at hk
  rw [place_unique nodup hplace hk, List.rotate_zero] at hn
  exact hn

/-! ## What a graph lists -/

namespace Graph

variable {g : Graph} {c : Cycle}

theorem lightest_of_mem_cycles (hc : c ∈ g.cycles) : c.suggestedBreak ∈ c.members ∧
    ∀ k ∈ c.members, k ≠ c.suggestedBreak → Cycle.Lighter g c.suggestedBreak k := by
  obtain ⟨members, -, heq⟩ := List.mem_filterMap.1 hc
  exact (Cycle.lightest_of_ofMembers? heq).2

theorem WellFormed.nodup_members_cycles (h : g.WellFormed) :
    (g.cycles.map Cycle.members).Nodup := by
  obtain ⟨backs, nodup, links, -⟩ := Search.findCycles_spec h.domain (fun _ hk => hk)
  rw [members_cycles (links.imp fun _ _ hc => And.intro hc.2.1 hc.2.2)]
  exact nodup

/-- No two listed cycles are the same circle, wherever they are cut. -/
theorem WellFormed.pairwise_cycles (h : g.WellFormed) :
    g.cycles.Pairwise fun c d => ¬ c.members ~r d.members := by
  refine (List.pairwise_map.1 h.nodup_members_cycles).imp_of_mem ?_
  intro c d hc hd hne rotated
  have circle := h.circle_of_mem_cycles hc
  exact hne (eq_of_isRotated circle.nodup rotated circle.least (h.circle_of_mem_cycles hd).least)

/-- Every cycle that a graph lists is a circle of it: different nodes, at least two, each of which
depends on the next one round the end, written from the smallest key on. Its suggested break is the
member with the fewest edges into it, and of several such the one with the smallest key. From any
member, going on to the next one leads to each member once and then back. No two listed cycles are
the same circle. -/
theorem cycles_elementary (h : g.Reachable) :
    (∀ c ∈ g.cycles,
      2 ≤ c.members.length ∧ c.members.Nodup ∧
      (∀ u v, Next c.members u v → g.Depends u v) ∧
      (∃ k, c.members.head? = some k ∧ ∀ j ∈ c.members, Sorted.le k j = true) ∧
      c.suggestedBreak ∈ c.members ∧
      (∀ k ∈ c.members, k ≠ c.suggestedBreak → g.inDegree c.suggestedBreak < g.inDegree k ∨
        (g.inDegree c.suggestedBreak = g.inDegree k ∧ compare c.suggestedBreak k = .lt)) ∧
      ∀ k ∈ c.members,
        ((List.range c.members.length).map (c.follow? k)).Perm (c.members.map some) ∧
        c.follow? k c.members.length = some k) ∧
    g.cycles.Pairwise fun c d => ¬ c.members ~r d.members := by
  have hg := h.wellFormed
  refine ⟨fun c hc => ?_, hg.pairwise_cycles⟩
  have circle := hg.circle_of_mem_cycles hc
  obtain ⟨hbreak, lightest⟩ := lightest_of_mem_cycles hc
  refine ⟨circle.two_le, circle.nodup, circle.edges, circle.least, hbreak,
    fun k hk hne => Cycle.lighter_iff.1 (lightest k hk hne), fun k hk => ?_⟩
  obtain ⟨i, hi⟩ := List.mem_iff_getElem?.1 hk
  constructor
  · rw [Cycle.map_follow? circle.nodup hi]
    exact (List.rotate_perm c.members i).map some
  · have hlt : i < c.members.length := (List.getElem?_eq_some_iff.1 hi).1
    rw [Cycle.follow?_eq circle.nodup hi, Nat.add_mod_right, Nat.mod_eq_of_lt hlt, hi]

/-- Of the two circles that share `B`, the first one is broken at `A`, which has as many edges into it
as `B` has, and the second one at `C`. -/
theorem cycles_elementary_overlapping :
    overlapping.Reachable ∧
    overlapping.cycles = [⟨[⟨.classDef, "A"⟩, ⟨.classDef, "B"⟩], ⟨.classDef, "A"⟩⟩,
      ⟨[⟨.classDef, "B"⟩, ⟨.classDef, "C"⟩], ⟨.classDef, "C"⟩⟩] ∧
    overlapping.Depends ⟨.classDef, "C"⟩ ⟨.classDef, "B"⟩ ∧
    overlapping.inDegree ⟨.classDef, "C"⟩ < overlapping.inDegree ⟨.classDef, "B"⟩ ∧
    overlapping.cycles.Pairwise fun c d => ¬ c.members ~r d.members := by
  have reachable : overlapping.Reachable := reachable_ofSteps _
  have cycles_eq : overlapping.cycles = [⟨[⟨.classDef, "A"⟩, ⟨.classDef, "B"⟩], ⟨.classDef, "A"⟩⟩,
      ⟨[⟨.classDef, "B"⟩, ⟨.classDef, "C"⟩], ⟨.classDef, "C"⟩⟩] := by
    cbv
  obtain ⟨elementary, distinct⟩ := cycles_elementary reachable
  rw [cycles_eq] at elementary
  obtain ⟨-, -, edges, -, -, lightest, -⟩ := elementary _ (List.mem_cons_of_mem _ List.mem_cons_self)
  refine ⟨reachable, cycles_eq, edges _ _ ⟨1, rfl, rfl⟩, ?_, distinct⟩
  rcases lightest ⟨.classDef, "B"⟩ List.mem_cons_self (by decide) with hlt | ⟨-, hkey⟩
  · exact hlt
  · exact absurd hkey (by decide)

end Graph

end LayerGraph
