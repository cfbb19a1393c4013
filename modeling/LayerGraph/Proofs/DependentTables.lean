import LayerGraph.Proofs.Distance
import LayerGraph.Tables.Dependents

/-!
# What the rows of dependents say

Each row that comes up for a key tells that so many steps lead from its key to the one asked about,
and when no row waits any more, all such rows up to the limit have come up. A key may have many of
them: on a circle it comes up again and again. The least of its numbers is its distance. The key
asked about is at no steps from itself, so it is told apart from the others when it is left out.

Main statements:
1. `Recursion.Sound.look`: what a look at one row keeps true.
2. `mem_dependentRows`: which rows come up.
3. `mem_dependentsWithin`, `nodup_dependentsWithin`: the dependents and their distances.
-/

namespace LayerGraph

namespace Tables

variable {t : Tables} {k u v : String} {limit d i : Nat}

/-- An edge runs from `u` to `v`. -/
def Depends (t : Tables) (u v : String) : Prop :=
  ∃ e ∈ t.edges, e.source = u ∧ e.target = v

theorem mem_sourcesInto : u ∈ t.sourcesInto v ↔ t.Depends u v := by
  unfold sourcesInto Depends
  simp only [List.mem_map, List.mem_filter, decide_eq_true_eq]
  refine exists_congr fun e => ?_
  rw [and_assoc, and_comm (a := e.target = v)]

theorem mem_furtherRows :
    (u, d) ∈ t.furtherRows limit (v, i) ↔ i < limit ∧ d = i + 1 ∧ t.Depends u v := by
  unfold furtherRows
  split
  · next within =>
    simp only [List.mem_map, mem_sourcesInto, Prod.mk.injEq]
    constructor
    · rintro ⟨source, depends, rfl, rfl⟩
      exact ⟨within, rfl, depends⟩
    · rintro ⟨-, rfl, depends⟩
      exact ⟨u, depends, rfl, rfl⟩
  · next beyond =>
    exact iff_of_false List.not_mem_nil fun h => beyond h.1

end Tables

/-! ## Rows that come up -/

namespace Recursion

variable {r : Recursion} {row x : String × Nat} {rows rest known : List (String × Nat)}

theorem mem_known_addRow : x ∈ (r.addRow row).known ↔ x = row ∨ x ∈ r.known := by
  unfold addRow
  split
  · next before =>
    rw [List.contains_iff_mem] at before
    exact (or_iff_right_of_imp fun same => same ▸ before).symm
  · rw [List.mem_append, List.mem_singleton, or_comm]

theorem mem_queue_addRow :
    x ∈ (r.addRow row).queue ↔ x ∈ r.queue ∨ (x = row ∧ x ∉ r.known) := by
  unfold addRow
  split
  · next before =>
    rw [List.contains_iff_mem] at before
    exact (or_iff_left fun ⟨same, new⟩ => new (same ▸ before)).symm
  · next new =>
    rw [List.contains_iff_mem] at new
    rw [List.mem_append, List.mem_singleton]
    exact or_congr_right (and_iff_left_of_imp fun same => same ▸ new).symm

theorem mem_known_foldl_addRow :
    x ∈ (rows.foldl addRow r).known ↔ x ∈ rows ∨ x ∈ r.known := by
  induction rows generalizing r with
  | nil => simp
  | cons row rest ih =>
    rw [List.foldl_cons, ih, mem_known_addRow, List.mem_cons, or_assoc, or_left_comm]

theorem mem_queue_foldl_addRow :
    x ∈ (rows.foldl addRow r).queue ↔ x ∈ r.queue ∨ (x ∈ rows ∧ x ∉ r.known) := by
  induction rows generalizing r with
  | nil => simp
  | cons row rest ih =>
    rw [List.foldl_cons, ih, mem_queue_addRow, mem_known_addRow, List.mem_cons]
    by_cases same : x = row
    · simp [same]
    · simp [same]

/-- What holds while the rows for a key come up: each tells of steps to this key, the direct
dependents are among them, and what a row leads to has come up once the row has been looked at. -/
structure Sound (t : Tables) (k : String) (limit : Nat) (r : Recursion) : Prop where
  steps : ∀ u d, (u, d) ∈ r.known → 1 ≤ d ∧ d ≤ max limit 1 ∧ Steps t.Depends d u k
  direct : ∀ u, t.Depends u k → (u, 1) ∈ r.known
  queued : ∀ row ∈ r.queue, row ∈ r.known
  closed : ∀ row ∈ r.known, row ∉ r.queue → ∀ next ∈ t.furtherRows limit row, next ∈ r.known

variable {t : Tables} {k : String} {limit : Nat}

/-- The direct dependents are the rows to begin with. -/
theorem Sound.start (t : Tables) (k : String) (limit : Nat) :
    Sound t k limit (((t.sourcesInto k).map fun source => (source, 1)).foldl addRow {}) where
  steps u d h := by
    rw [mem_known_foldl_addRow, List.mem_map] at h
    obtain ⟨source, hsource, heq⟩ := h.resolve_right List.not_mem_nil
    obtain ⟨rfl, rfl⟩ := Prod.mk.inj heq
    exact ⟨Nat.le_refl 1, Nat.le_max_right _ _, .head (Tables.mem_sourcesInto.1 hsource) (.refl k)⟩
  direct u h :=
    mem_known_foldl_addRow.2 (.inl (List.mem_map.2 ⟨u, Tables.mem_sourcesInto.2 h, rfl⟩))
  queued row h := by
    rw [mem_queue_foldl_addRow] at h
    exact mem_known_foldl_addRow.2 (.inl (h.resolve_left List.not_mem_nil).1)
  closed row h waits := by
    refine absurd (mem_queue_foldl_addRow.2 (.inr ⟨?_, List.not_mem_nil⟩)) waits
    exact (mem_known_foldl_addRow.1 h).resolve_right List.not_mem_nil

theorem Sound.look (h : Sound t k limit ⟨known, row :: rest⟩) :
    Sound t k limit ((t.furtherRows limit row).foldl addRow ⟨known, rest⟩) where
  steps u d hrow := by
    rcases mem_known_foldl_addRow.1 hrow with hnew | hknown
    · obtain ⟨v, i⟩ := row
      obtain ⟨within, rfl, depends⟩ := Tables.mem_furtherRows.1 hnew
      have steps := (h.steps v i (h.queued _ List.mem_cons_self)).2.2
      exact ⟨Nat.succ_pos i, le_max_of_le_left within, .head depends steps⟩
    · exact h.steps u d hknown
  direct u depends := mem_known_foldl_addRow.2 (.inr (h.direct u depends))
  queued x hx := by
    refine mem_known_foldl_addRow.2 ?_
    rcases mem_queue_foldl_addRow.1 hx with hrest | ⟨hnew, -⟩
    · exact .inr (h.queued x (List.mem_cons_of_mem _ hrest))
    · exact .inl hnew
  closed x hx waits next hnext := by
    rw [mem_queue_foldl_addRow, not_or] at waits
    refine mem_known_foldl_addRow.2 ?_
    by_cases before : x ∈ known
    · by_cases looked : x = row
      · exact .inl (looked ▸ hnext)
      · refine .inr (h.closed x before (fun hqueue => ?_) next hnext)
        exact (List.mem_cons.1 hqueue).elim looked waits.1
    · -- what has just come up waits
      exact absurd ⟨(mem_known_foldl_addRow.1 hx).resolve_right before, before⟩ waits.2

/-- When no row waits, all rows that there are have come up. -/
theorem Sound.mem_known (h : Sound t k limit ⟨known, []⟩) {u : String} {d : Nat} :
    (u, d) ∈ known ↔ 1 ≤ d ∧ d ≤ max limit 1 ∧ Steps t.Depends d u k := by
  refine ⟨h.steps u d, ?_⟩
  rintro ⟨hpos, hle, steps⟩
  induction d, hpos using Nat.le_induction generalizing u with
  | base =>
    obtain ⟨v, depends, hv⟩ := steps_succ_iff.1 steps
    obtain rfl := steps_zero_iff.1 hv
    exact h.direct u depends
  | succ d hpos ih =>
    obtain ⟨v, depends, hv⟩ := steps_succ_iff.1 steps
    have nearer := ih (Nat.le_of_succ_le hle) hv
    have within : d < limit := by omega
    exact h.closed _ nearer List.not_mem_nil _ (Tables.mem_furtherRows.2 ⟨within, rfl, depends⟩)

end Recursion

/-! ## Dependents -/

namespace Tables

variable {t : Tables} {k u : String} {limit d : Nat} {r : Recursion} {rows : List (String × Nat)}

theorem mem_lookAll (h : r.Sound t k limit) :
    (u, d) ∈ t.lookAll limit r ↔ 1 ≤ d ∧ d ≤ max limit 1 ∧ Steps t.Depends d u k := by
  induction r using lookAll.induct t limit with
  | case1 known =>
    rw [lookAll]
    exact h.mem_known
  | case2 known row rest ih =>
    rw [lookAll]
    exact ih h.look

/-- The rows that come up are the keys from which so many steps lead to the key asked about. -/
theorem mem_dependentRows :
    (u, d) ∈ t.dependentRows k limit ↔ 1 ≤ d ∧ d ≤ max limit 1 ∧ Steps t.Depends d u k :=
  mem_lookAll (.start t k limit)

theorem leastSteps_eq (hrow : (u, d) ∈ rows) (least : ∀ i, (u, i) ∈ rows → d ≤ i) :
    leastSteps rows u = d := by
  have min : ((rows.filter (·.1 = u)).map (·.2)).min? = some d := by
    rw [List.min?_eq_some_iff]
    constructor
    · exact List.mem_map.2 ⟨(u, d), List.mem_filter.2 ⟨hrow, decide_eq_true rfl⟩, rfl⟩
    · intro i hi
      obtain ⟨⟨v, i⟩, hkept, rfl⟩ := List.mem_map.1 hi
      obtain ⟨hv, same⟩ := List.mem_filter.1 hkept
      obtain rfl : v = u := of_decide_eq_true same
      exact least i hv
  rw [leastSteps, min, Option.getD_some]

/-- The dependents of a key are the other keys from which it can be reached within the limit, each
with its distance. -/
theorem mem_dependentsWithin : (u, d) ∈ t.dependentsWithin k limit ↔
    0 < d ∧ d ≤ max limit 1 ∧ Distance t.Depends u k d := by
  unfold dependentsWithin
  dsimp only
  generalize hrows : (t.dependentRows k limit).filter (·.1 ≠ k) = rows
  have mem_rows : ∀ u d, (u, d) ∈ rows ↔
      u ≠ k ∧ 1 ≤ d ∧ d ≤ max limit 1 ∧ Steps t.Depends d u k := by
    intro u d
    rw [← hrows, List.mem_filter, mem_dependentRows, decide_eq_true_iff, and_comm]
  have least_of_distance {d : Nat} (hne : u ≠ k) (hpos : 0 < d) (hle : d ≤ max limit 1)
      (hdist : Distance t.Depends u k d) : leastSteps rows u = d := by
    refine leastSteps_eq ((mem_rows u d).2 ⟨hne, hpos, hle, hdist.steps⟩) fun i hi => ?_
    exact hdist.le ((mem_rows u i).1 hi).2.2.2
  rw [(List.mergeSort_perm _ _).mem_iff, List.mem_map]
  constructor
  · rintro ⟨v, hv, heq⟩
    obtain ⟨rfl, rfl⟩ := Prod.mk.inj heq
    obtain ⟨⟨v, i⟩, hrow, rfl⟩ := List.mem_map.1 (Sorted.mem_distinct.1 hv)
    obtain ⟨hne, -, hle, steps⟩ := (mem_rows v i).1 hrow
    obtain ⟨d, hd, hdist⟩ := exists_distance steps
    have hpos : 0 < d := Nat.pos_of_ne_zero fun hzero =>
      hne (distance_zero_iff.1 (hzero ▸ hdist))
    rw [least_of_distance hne hpos (hd.trans hle) hdist]
    exact ⟨hpos, hd.trans hle, hdist⟩
  · rintro ⟨hpos, hle, hdist⟩
    have hne : u ≠ k := by
      rintro rfl
      exact absurd (hdist.le (.refl u)) (Nat.not_le.2 hpos)
    refine ⟨u, Sorted.mem_distinct.2 (List.mem_map.2 ⟨(u, d), ?_, rfl⟩), ?_⟩
    · exact (mem_rows u d).2 ⟨hne, hpos, hle, hdist.steps⟩
    · rw [least_of_distance hne hpos hle hdist]

theorem nodup_dependentsWithin (t : Tables) (k : String) (limit : Nat) :
    ((t.dependentsWithin k limit).map Prod.fst).Nodup := by
  unfold dependentsWithin
  dsimp only
  rw [((List.mergeSort_perm _ _).map Prod.fst).nodup_iff, List.map_map]
  exact (List.map_id _).symm ▸ Sorted.nodup_distinct _

end Tables

end LayerGraph
