import Std.Data.TreeMap

/-!
# Sorted lists

Every answer that lists keys, edges or names lists them in a fixed order, so that two runs over the
same records can be compared text by text. `sort` keeps repetitions, `distinct` lists each element
once.

Main statements:
1. `perm_sort`, `mem_distinct`: nothing is lost and nothing is made up.
2. `pairwise_sort`, `pairwise_distinct`: the results ascend, the second one strictly; so does the
   first one of a list without repetitions (`ascending_sort`).
3. `least?_spec`: the least element is one of the list and below all of it.
4. `getElem?_insert`, `toList_eq_map`: what is found in a map by key, and that it lists its keys in
   ascending order.
-/

namespace LayerGraph.Sorted

variable {α : Type} [Ord α]

/-- The order test that sorting goes by. -/
def le (a b : α) : Bool :=
  (compare a b).isLE

/-- The elements in ascending order, repetitions kept; equal elements keep their order. -/
def sort (xs : List α) : List α :=
  xs.mergeSort le

/-- Drops each element that equals the one before it. -/
def dropRepeats : List α → List α
  | a :: b :: rest =>
    if compare a b = .eq then dropRepeats (a :: rest) else a :: dropRepeats (b :: rest)
  | short => short
termination_by xs => xs.length

/-- The distinct elements in ascending order. -/
def distinct (xs : List α) : List α :=
  dropRepeats (sort xs)

/-- Each element is less than all behind it. -/
def Ascending (xs : List α) : Prop :=
  xs.Pairwise fun a b => compare a b = .lt

/-- The smallest element by a weight, the first one if several have it. -/
def least? {β : Type} [Ord β] (weight : α → β) : List α → Option α
  | [] => none
  | a :: rest => some (rest.foldl (fun best b =>
      if compare (weight b) (weight best) = .lt then b else best) a)

section Lemmas

theorem perm_sort (xs : List α) : (sort xs).Perm xs :=
  List.mergeSort_perm xs le

theorem mem_sort {a : α} {xs : List α} : a ∈ sort xs ↔ a ∈ xs :=
  (perm_sort xs).mem_iff

theorem length_sort (xs : List α) : (sort xs).length = xs.length :=
  (perm_sort xs).length_eq

theorem pairwise_sort [Std.TransOrd α] (xs : List α) :
    (sort xs).Pairwise fun a b => le a b = true := by
  refine List.pairwise_mergeSort ?_ ?_ xs
  · intro a b c hab hbc
    exact Std.TransCmp.isLE_trans hab hbc
  · intro a b
    simp only [le, Bool.or_eq_true]
    rcases h : compare a b with _ | _ | _
    · exact .inl rfl
    · exact .inl rfl
    · right
      have swapped : compare b a = (compare a b).swap := Std.OrientedOrd.eq_swap
      rw [swapped, h]
      rfl

theorem mem_dropRepeats [Std.LawfulEqOrd α] {c : α} :
    ∀ {xs : List α}, c ∈ dropRepeats xs ↔ c ∈ xs
  | [] => by simp [dropRepeats]
  | [a] => by simp [dropRepeats]
  | a :: b :: rest => by
    rw [dropRepeats]
    split
    · rename_i h
      have : a = b := Std.LawfulEqOrd.eq_of_compare h
      subst this
      rw [mem_dropRepeats]
      simp
    · rw [List.mem_cons, mem_dropRepeats]
      simp
termination_by xs => xs.length

theorem mem_distinct [Std.LawfulEqOrd α] {a : α} {xs : List α} : a ∈ distinct xs ↔ a ∈ xs := by
  rw [distinct, mem_dropRepeats, mem_sort]

theorem pairwise_dropRepeats [Std.TransOrd α] [Std.LawfulEqOrd α] :
    ∀ {xs : List α}, (xs.Pairwise fun a b => le a b = true) →
      (dropRepeats xs).Pairwise fun a b => compare a b = .lt
  | [], _ => by simp [dropRepeats]
  | [a], _ => by simp [dropRepeats]
  | a :: b :: rest, h => by
    rw [dropRepeats]
    have tail := (List.pairwise_cons.1 h).2
    split
    · refine pairwise_dropRepeats (List.pairwise_cons.2 ⟨?_, (List.pairwise_cons.1 tail).2⟩)
      intro c hc
      exact (List.pairwise_cons.1 h).1 c (List.mem_cons_of_mem b hc)
    · rename_i hab
      refine List.pairwise_cons.2 ⟨?_, pairwise_dropRepeats tail⟩
      intro c hc
      have hab' : compare a b = .lt := by
        have first : le a b = true := (List.pairwise_cons.1 h).1 b (List.mem_cons_self ..)
        simp only [le] at first
        rcases hcase : compare a b with _ | _ | _
        · rfl
        · exact absurd hcase hab
        · rw [hcase] at first
          exact absurd first (by decide)
      rcases List.mem_cons.1 (mem_dropRepeats.1 hc) with rfl | hc'
      · exact hab'
      · exact Std.TransCmp.lt_of_lt_of_isLE hab' ((List.pairwise_cons.1 tail).1 c hc')
termination_by xs => xs.length

theorem pairwise_distinct [Std.TransOrd α] [Std.LawfulEqOrd α] (xs : List α) :
    (distinct xs).Pairwise fun a b => compare a b = .lt :=
  pairwise_dropRepeats (pairwise_sort xs)

theorem ne_of_lt [Std.TransOrd α] {a b : α} (h : compare a b = .lt) : a ≠ b := by
  rintro rfl
  have heq : compare a a = .eq := Std.ReflCmp.compare_self
  rw [heq] at h
  exact absurd h (by decide)

theorem lt_of_le_of_ne [Std.LawfulEqOrd α] {a b : α} (hle : le a b = true) (hne : a ≠ b) :
    compare a b = .lt := by
  rcases hcase : compare a b with _ | _ | _
  · rfl
  · exact absurd (Std.LawfulEqOrd.eq_of_compare hcase) hne
  · rw [le, hcase] at hle
    exact absurd hle (by decide)

theorem Ascending.nodup [Std.TransOrd α] {xs : List α} (h : Ascending xs) : xs.Nodup :=
  List.Pairwise.imp ne_of_lt h

/-- Two lists that ascend are equal if they hold the same. -/
theorem Ascending.eq_of_mem_iff [Std.TransOrd α] : ∀ {xs ys : List α}, Ascending xs → Ascending ys →
    (∀ a, a ∈ xs ↔ a ∈ ys) → xs = ys
  | [], [], _, _, _ => rfl
  | [], y :: ys, _, _, same => absurd ((same y).2 List.mem_cons_self) List.not_mem_nil
  | x :: xs, [], _, _, same => absurd ((same x).1 List.mem_cons_self) List.not_mem_nil
  | x :: xs, y :: ys, hx, hy, same => by
    obtain ⟨below_x, rest_x⟩ := List.pairwise_cons.1 hx
    obtain ⟨below_y, rest_y⟩ := List.pairwise_cons.1 hy
    have asymm : ∀ {a b : α}, compare a b = .lt → compare b a ≠ .lt := by
      intro a b hab hba
      rw [Std.OrientedOrd.eq_swap (a := b), hab] at hba
      cases hba
    -- the least element of the one list is that of the other
    obtain rfl : x = y := by
      rcases List.mem_cons.1 ((same x).1 List.mem_cons_self) with rfl | hxy
      · rfl
      · rcases List.mem_cons.1 ((same y).2 List.mem_cons_self) with rfl | hyx
        · rfl
        · exact absurd (below_y x hxy) (asymm (below_x y hyx))
    refine congrArg (x :: ·) (Ascending.eq_of_mem_iff rest_x rest_y fun a => ?_)
    constructor
    · intro ha
      exact (List.mem_cons.1 ((same a).1 (List.mem_cons_of_mem x ha))).resolve_left
        (ne_of_lt (below_x a ha)).symm
    · intro ha
      exact (List.mem_cons.1 ((same a).2 (List.mem_cons_of_mem x ha))).resolve_left
        (ne_of_lt (below_y a ha)).symm

theorem nodup_distinct [Std.TransOrd α] [Std.LawfulEqOrd α] (xs : List α) : (distinct xs).Nodup :=
  Ascending.nodup (pairwise_distinct xs)

/-- Without repetitions, sorting leads to a list that ascends strictly. -/
theorem ascending_sort [Std.TransOrd α] [Std.LawfulEqOrd α] {xs : List α} (h : xs.Nodup) :
    Ascending (sort xs) := by
  have nodup : (sort xs).Nodup := (perm_sort xs).nodup_iff.2 h
  exact ((pairwise_sort xs).and nodup).imp fun h => lt_of_le_of_ne h.1 h.2

omit [Ord α] in
/-- The least element is one of them, and its weight is below that of every other. -/
theorem least?_spec {β : Type} [Ord β] [Std.TransOrd β] {weight : α → β} {xs : List α} {a : α}
    (h : least? weight xs = some a) :
    a ∈ xs ∧ ∀ b ∈ xs, le (weight a) (weight b) = true := by
  -- what holds of the best element of `seen` goes on to hold as `rest` is folded over
  have run : ∀ (rest seen : List α) (best : α),
      best ∈ seen ∧ (∀ b ∈ seen, le (weight best) (weight b) = true) →
      let best' := rest.foldl (fun best b =>
        if compare (weight b) (weight best) = .lt then b else best) best
      best' ∈ seen ++ rest ∧ ∀ b ∈ seen ++ rest, le (weight best') (weight b) = true := by
    intro rest
    induction rest with
    | nil => simp
    | cons c rest ih =>
      rintro seen best ⟨hmem, hle⟩
      rw [List.foldl_cons, List.append_cons]
      refine ih (seen ++ [c]) _ ?_
      split
      · next hlt =>
        refine ⟨List.mem_append_right _ (List.mem_singleton_self c), ?_⟩
        have hbest : le (weight c) (weight best) = true := by
          rw [le, hlt]
          rfl
        intro b hb
        rcases List.mem_append.1 hb with hb | hb
        · exact Std.TransCmp.isLE_trans hbest (hle b hb)
        · obtain rfl := List.mem_singleton.1 hb
          exact Std.ReflCmp.isLE_rfl
      · next hlt =>
        refine ⟨List.mem_append_left _ hmem, ?_⟩
        intro b hb
        rcases List.mem_append.1 hb with hb | hb
        · exact hle b hb
        · obtain rfl := List.mem_singleton.1 hb
          exact Std.OrientedCmp.isGE_iff_isLE.1 (Ordering.isGE_iff_ne_lt.2 hlt)
  cases xs with
  | nil => exact absurd h (by simp [least?])
  | cons c rest =>
    obtain rfl := Option.some.inj h
    exact run rest [c] c (by simp [le])

omit [Ord α] in
theorem exists_least? {β : Type} [Ord β] (weight : α → β) {xs : List α} (h : xs ≠ []) :
    ∃ a, least? weight xs = some a := by
  cases xs with
  | nil => exact absurd rfl h
  | cons a rest => exact ⟨_, rfl⟩

theorem getElem?_insert [Std.TransOrd α] [Std.LawfulEqOrd α] [DecidableEq α] {β : Type}
    (m : Std.TreeMap α β) (j k : α) (b : β) :
    (m.insert k b)[j]? = if j = k then some b else m[j]? := by
  rw [Std.TreeMap.getElem?_insert]
  by_cases same : j = k
  · rw [if_pos same, if_pos (same ▸ Std.ReflCmp.compare_self)]
  · rw [if_neg same, if_neg fun heq => same (Std.LawfulEqOrd.eq_of_compare heq).symm]

/-- A map lists its keys in order, each with what is found under it. -/
theorem toList_eq_map [Std.TransOrd α] [Std.LawfulEqOrd α] {β : Type} {m : Std.TreeMap α β}
    {ks : List α} (ascending : Ascending ks) {value : α → β} (keys : ∀ k, k ∈ m ↔ k ∈ ks)
    (values : ∀ k ∈ ks, m[k]? = some (value k)) : m.toList = ks.map fun k => (k, value k) := by
  have keys_eq : m.keys = ks :=
    Ascending.eq_of_mem_iff Std.TreeMap.ordered_keys ascending fun k => by
      rw [Std.TreeMap.mem_keys, keys]
  rw [← keys_eq, ← Std.TreeMap.map_fst_toList_eq_keys, List.map_map]
  refine (List.map_id _).symm.trans (List.map_congr_left fun entry hentry => ?_)
  have found := Std.TreeMap.mem_toList_iff_getElem?_eq_some.1 hentry
  have key_mem : entry.1 ∈ ks := by
    rw [← keys_eq, ← Std.TreeMap.map_fst_toList_eq_keys]
    exact List.mem_map_of_mem hentry
  rw [values _ key_mem] at found
  exact Prod.ext rfl (Option.some.inj found).symm

end Lemmas

end LayerGraph.Sorted
