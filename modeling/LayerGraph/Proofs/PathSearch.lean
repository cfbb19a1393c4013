import LayerGraph.Proofs.Distance
import LayerGraph.Tables.Paths

/-!
# What the search for paths finds

The search goes out from the source level by level. Since a level is only marked as visited when the
next one is known, a key is noted for every key of the level before that it is linked to. So what has
been noted for a key are the keys it is linked to and that are one step nearer to the source, all of
them, whatever other ways lead there.

Going back, the stack holds paths that are not finished. A path on top of the stack comes to its end,
with all that it leads to, before the rest of the stack is looked at, and by then just as many paths
have been finished as there are, or as the limit allows. Each step leads to a key that is nearer to
the source, so the path on top does come to its end.

Main statements:
1. `Charted.next`: a level leads to the next one.
2. `traceTo?_spec`: what is noted when the target is found, by its distance.
3. `goBack_cons`: what comes of the path on top of the stack.
4. `exists_shortestPaths`, `shortestPaths_eq_nil`: what the search finds.
-/

namespace LayerGraph

namespace Tables

/-! ## Levels -/

variable {t : Tables} {source target x : String} {o : Outward} {d n hops : Nat}

/-- For the keys up to a distance from the source, what has been noted are the keys linked to them
that are one step nearer. -/
def Noted (t : Tables) (source : String) (d : Nat) (parents : Parents) : Prop :=
  ∀ x v, v ∈ parents.of x ↔
    ∃ i < d, Distance t.Linked x source (i + 1) ∧ t.Linked x v ∧ Distance t.Linked v source i

/-- The search has come out to a distance. -/
structure Charted (t : Tables) (source : String) (d : Nat) (o : Outward) : Prop where
  levelled : Levelled t.Linked source d o.visited o.frontier
  noted : t.Noted source d o.parents

theorem Charted.start (t : Tables) (source : String) : t.Charted source 0 (.start source) where
  levelled := .start _ source
  noted x v := by
    show v ∈ Multimap.of ({} : Parents) x ↔ _
    rw [Outward.of_empty]
    exact iff_of_false List.not_mem_nil fun ⟨i, hi, _⟩ => Nat.not_lt_zero i hi

theorem mem_frontier_next (o : Outward) :
    x ∈ (o.next t).frontier ↔ x ∉ o.visited ∧ ∃ k ∈ o.frontier, t.Linked x k := by
  show x ∈ Sorted.distinct _ ↔ _
  rw [Sorted.mem_distinct, mem_found_scanLevel]

/-- A level leads to the next one. -/
theorem Charted.next (h : t.Charted source d o) : t.Charted source (d + 1) (o.next t) := by
  have levelled : Levelled t.Linked source (d + 1) (o.next t).visited (o.next t).frontier :=
    h.levelled.next fun _ => mem_frontier_next o
  refine ⟨levelled, fun x v => ?_⟩
  have here : x ∉ o.visited ∧ v ∈ o.frontier ∧ t.Linked x v ↔
      Distance t.Linked x source (d + 1) ∧ t.Linked x v ∧ Distance t.Linked v source d := by
    rw [← levelled.frontier_iff, mem_frontier_next, ← h.levelled.frontier_iff]
    constructor
    · rintro ⟨unseen, hv, linked⟩
      exact ⟨⟨unseen, v, hv, linked⟩, linked, hv⟩
    · rintro ⟨⟨unseen, -⟩, linked, hv⟩
      exact ⟨unseen, hv, linked⟩
  show v ∈ (t.scanLevel o.parents o.visited o.frontier).parents.of x ↔ _
  rw [mem_parents_scanLevel, here, h.noted]
  constructor
  · rintro (⟨i, hi, nearer⟩ | nearer)
    · exact ⟨i, Nat.lt_succ_of_lt hi, nearer⟩
    · exact ⟨d, Nat.lt_succ_self d, nearer⟩
  · rintro ⟨i, hi, nearer⟩
    rcases Nat.eq_or_lt_of_le (Nat.le_of_lt_succ hi) with rfl | hlt
    · exact .inr nearer
    · exact .inl ⟨i, hlt, nearer⟩

/-- The search comes to an end with what has been noted up to the target, if the target is not too
far away. -/
theorem traceTo?_spec (h : t.Charted source d o) (unseen : target ∉ o.visited) (hops : Nat) :
    (∀ n ≤ d + hops, Distance t.Linked target source n → ∃ trace,
      t.traceTo? target hops o = some trace ∧ t.Noted source n trace.parents) ∧
    ((∀ n ≤ d + hops, ¬ Distance t.Linked target source n) →
      t.traceTo? target hops o = none) := by
  induction hops generalizing d o with
  | zero =>
    refine ⟨fun n hn hdist => ?_, fun _ => rfl⟩
    exact absurd ((h.levelled.seen_iff target).2 ⟨n, hn, hdist⟩) unseen
  | succ hops ih =>
    have next := h.next
    unfold traceTo?
    dsimp only
    split
    · next hempty =>
      -- there is nothing further out than what has been visited
      refine ⟨fun n hn hdist => ?_, fun _ => rfl⟩
      by_cases hle : n ≤ d
      · exact absurd ((h.levelled.seen_iff target).2 ⟨n, hle, hdist⟩) unseen
      · have levelled := next.levelled
        rw [List.isEmpty_iff.1 hempty] at levelled
        exact absurd hdist (levelled.not_distance (Nat.lt_of_not_le hle))
    · split
      · next hfound =>
        have here := (next.levelled.frontier_iff target).1 (List.contains_iff_mem.1 hfound)
        refine ⟨fun n _ hdist => ?_, fun hnone => absurd here (hnone (d + 1) (by omega))⟩
        obtain rfl := here.unique hdist
        exact ⟨_, rfl, next.noted⟩
      · next hfound =>
        have unseen' : target ∉ (o.next t).visited := by
          show target ∉ o.visited ++ (o.next t).frontier
          rw [List.mem_append]
          exact fun hin => hin.elim unseen fun hmem => hfound (List.contains_iff_mem.2 hmem)
        have found := ih next unseen'
        rwa [Nat.add_right_comm] at found

/-! ## Back to the source -/

variable {trace : Trace} {limit i : Nat} {key : String} {tail p : List String}
  {stack rest finished : List (List String)}

/-- All paths that a path leads to in so many steps back, in the order of the search. -/
def wholePaths (trace : Trace) : Nat → List String → List (List String)
  | 0, path => [path]
  | steps + 1, path =>
    (Sorted.distinct (trace.parents.of (path.headD ""))).flatMap fun v =>
      wholePaths trace steps (v :: path)

theorem take_append_take {α : Type} (n : Nat) (xs ys : List α) :
    (xs.take n ++ ys).take n = (xs ++ ys).take n := by
  have missing : n - (xs.take n).length = n - xs.length := by
    rw [List.length_take]
    omega
  rw [List.take_append, List.take_append, List.take_take, Nat.min_self, missing]

theorem goBack_nil : goBack trace source limit [] finished = finished := by
  rw [goBack]

theorem goBack_of_limit_le (h : limit ≤ finished.length) :
    goBack trace source limit stack finished = finished := by
  cases stack with
  | nil => exact goBack_nil
  | cons path rest =>
    rw [goBack.eq_def]
    exact if_pos h

theorem goBack_source (h : ¬ limit ≤ finished.length) :
    goBack trace source limit ((source :: tail) :: rest) finished =
      goBack trace source limit rest (finished ++ [source :: tail]) := by
  rw [goBack, if_neg h, if_pos rfl]

theorem goBack_further (h : ¬ limit ≤ finished.length) (ne : key ≠ source) :
    goBack trace source limit ((key :: tail) :: rest) finished =
      goBack trace source limit
        ((Sorted.distinct (trace.parents.of key)).map (· :: key :: tail) ++ rest) finished := by
  rw [goBack, if_neg h, if_neg ne]

theorem Noted.distance_of_mem (h : t.Noted source n trace.parents)
    (hdist : Distance t.Linked key source (i + 1)) :
    ∀ v ∈ Sorted.distinct (trace.parents.of key), Distance t.Linked v source i := by
  intro v hv
  obtain ⟨j, -, hj, -, hv⟩ := (h key v).1 (Sorted.mem_distinct.1 hv)
  obtain rfl : i = j := Nat.succ.inj (hdist.unique hj)
  exact hv

/-- When enough paths have been finished, nothing else matters. -/
theorem goBack_of_full (full : limit ≤ finished.length) (room : finished.length ≤ limit)
    (more : List (List String)) : goBack trace source limit stack finished =
      goBack trace source limit rest ((finished ++ more).take limit) := by
  rw [List.take_append_of_le_length full, List.take_of_length_le room, goBack_of_limit_le full,
    goBack_of_limit_le full]

/-- The path on top of the stack comes to its end: what it leads to has been finished, as far as the
limit allows, and the rest of the stack is as it was. -/
theorem goBack_cons (h : t.Noted source n trace.parents) (hdist : Distance t.Linked key source i)
    (hi : i ≤ n) (room : finished.length ≤ limit) :
    goBack trace source limit ((key :: tail) :: rest) finished =
      goBack trace source limit rest
        ((finished ++ wholePaths trace i (key :: tail)).take limit) := by
  by_cases full : limit ≤ finished.length
  · exact goBack_of_full full room _
  induction i generalizing key tail rest finished with
  | zero =>
    obtain rfl := distance_zero_iff.1 hdist
    have fits : (finished ++ [key :: tail]).length ≤ limit := by
      rw [List.length_append, List.length_singleton]
      omega
    rw [goBack_source full, wholePaths, List.take_of_length_le fits]
  | succ i ih =>
    have ne : key ≠ source := by
      rintro rfl
      exact absurd (hdist.le (.refl key)) (Nat.not_le.2 (Nat.succ_pos i))
    have nearer := h.distance_of_mem hdist
    rw [goBack_further full ne, wholePaths, List.headD_cons]
    generalize Sorted.distinct (trace.parents.of key) = vs at nearer
    -- the paths that lead on from this one come to their ends one after another
    clear full
    induction vs generalizing finished with
    | nil =>
      rw [List.map_nil, List.nil_append, List.flatMap_nil, List.append_nil,
        List.take_of_length_le room]
    | cons v vs others =>
      obtain ⟨hv, nearer⟩ := List.forall_mem_cons.1 nearer
      rw [List.map_cons, List.cons_append, List.flatMap_cons, ← List.append_assoc,
        ← take_append_take, ← others (List.length_take_le _ _) nearer]
      by_cases full : limit ≤ finished.length
      · exact goBack_of_full full room _
      · exact ih hv (Nat.le_of_succ_le hi) room full

theorem mem_wholePaths (h : t.Noted source n trace.parents) (hdist : Distance t.Linked key source i)
    (hi : i ≤ n) : p ∈ wholePaths trace i (key :: tail) ↔
      ∃ q, p = q.reverse ++ tail ∧ Way t.Linked i key source q := by
  induction i generalizing key tail with
  | zero =>
    obtain rfl := distance_zero_iff.1 hdist
    rw [wholePaths, List.mem_singleton]
    constructor
    · rintro rfl
      exact ⟨[key], rfl, way_zero_iff.2 ⟨rfl, rfl⟩⟩
    · rintro ⟨q, rfl, way⟩
      rw [(way_zero_iff.1 way).2]
      rfl
  | succ i ih =>
    rw [wholePaths, List.headD_cons, List.mem_flatMap]
    constructor
    · rintro ⟨v, hv, hp⟩
      obtain ⟨j, -, hj, linked, hv⟩ := (h key v).1 (Sorted.mem_distinct.1 hv)
      obtain rfl : i = j := Nat.succ.inj (hdist.unique hj)
      obtain ⟨q, rfl, way⟩ := (ih hv (Nat.le_of_succ_le hi)).1 hp
      exact ⟨key :: q, by simp, way_succ_iff.2 ⟨v, q, rfl, linked, way⟩⟩
    · rintro ⟨_, rfl, way⟩
      obtain ⟨v, q, rfl, linked, way⟩ := way_succ_iff.1 way
      have hv : Distance t.Linked v source i :=
        ⟨way.steps, fun j hj => Nat.le_of_succ_le_succ (hdist.le (.head linked hj))⟩
      refine ⟨v, Sorted.mem_distinct.2 ((h key v).2 ⟨i, hi, hdist, linked, hv⟩), ?_⟩
      exact (ih hv (Nat.le_of_succ_le hi)).2 ⟨q, by simp, way⟩

theorem nodup_wholePaths (h : t.Noted source n trace.parents) (hdist : Distance t.Linked key source i)
    (hi : i ≤ n) : (wholePaths trace i (key :: tail)).Nodup := by
  induction i generalizing key tail with
  | zero => exact List.pairwise_singleton _ _
  | succ i ih =>
    have nearer := h.distance_of_mem hdist
    rw [wholePaths, List.headD_cons, List.nodup_flatMap]
    refine ⟨fun v hv => ih (nearer v hv) (Nat.le_of_succ_le hi), ?_⟩
    -- a path tells through which key it goes
    refine (Sorted.nodup_distinct _).imp_of_mem fun {v w} hv hw hne => ?_
    intro p hpv hpw
    obtain ⟨q, rfl, first⟩ := (mem_wholePaths h (nearer v hv) (Nat.le_of_succ_le hi)).1 hpv
    obtain ⟨q', heq, second⟩ := (mem_wholePaths h (nearer w hw) (Nat.le_of_succ_le hi)).1 hpw
    obtain rfl := List.reverse_injective (List.append_cancel_right heq)
    exact hne (Option.some.inj (first.head.symm.trans second.head))

/-- The paths that the target leads to are all the shortest ways from the source to it. -/
theorem allWays_wholePaths (h : t.Noted source n trace.parents)
    (hdist : Distance t.Linked target source n) :
    AllWays t.Linked n source target (wholePaths trace n [target]) where
  nodup := nodup_wholePaths h hdist (Nat.le_refl n)
  mem_iff p := by
    have symm : ∀ x y, t.Linked x y → t.Linked y x := fun _ _ => Linked.symm
    rw [mem_wholePaths h hdist (Nat.le_refl n)]
    constructor
    · rintro ⟨q, rfl, way⟩
      rw [List.append_nil]
      exact way.reverse symm
    · intro way
      exact ⟨p.reverse, by rw [List.reverse_reverse, List.append_nil], way.reverse symm⟩

/-! ## Shortest paths -/

/-- Of the shortest paths between two nodes as many are found as the limit allows, if they are not
too long. -/
theorem exists_shortestPaths (hlimit : 1 ≤ limit) (hu : t.contains u = true)
    (hv : t.contains v = true) (hn : n ≤ hops) (hdist : Distance t.Linked u v n) :
    ∃ all, AllWays t.Linked n u v all ∧ t.shortestPaths u v hops limit = all.take limit := by
  unfold shortestPaths
  rw [hu, hv, Bool.and_self, Bool.not_true, if_neg Bool.false_ne_true]
  by_cases same : u = v
  · subst same
    obtain rfl : n = 0 := hdist.unique (distance_zero_iff.2 rfl)
    refine ⟨[[u]], allWays_self _ u, ?_⟩
    rw [if_pos rfl, List.take_of_length_le hlimit]
  · have unseen : v ∉ [u] := fun hv => same (List.mem_singleton.1 hv).symm
    have back := (distance_comm fun _ _ => Linked.symm).1 hdist
    obtain ⟨trace, found, noted⟩ := (traceTo?_spec (.start t u) unseen hops).1 n (by omega) back
    refine ⟨_, allWays_wholePaths noted back, ?_⟩
    rw [if_neg same, found]
    dsimp only
    rw [goBack_cons noted back (Nat.le_refl n) (Nat.zero_le limit), goBack_nil]
    rfl

/-- Nothing is found when a node is not there, or when there is no path that is short enough. -/
theorem shortestPaths_eq_nil (hnone : ¬ (t.contains u = true ∧ t.contains v = true ∧
    ∃ n ≤ hops, Distance t.Linked u v n)) : t.shortestPaths u v hops limit = [] := by
  unfold shortestPaths
  split
  · rfl
  · next there =>
    have ends : t.contains u = true ∧ t.contains v = true := by
      rw [Bool.not_eq_true', Bool.not_eq_false, Bool.and_eq_true] at there
      exact there
    split
    · next same =>
      subst same
      exact absurd ⟨ends.1, ends.2, 0, Nat.zero_le _, distance_zero_iff.2 rfl⟩ hnone
    · next other =>
      have unseen : v ∉ [u] := fun hv => other (List.mem_singleton.1 hv).symm
      have found := (traceTo?_spec (.start t u) unseen hops).2 fun n hn hdist =>
        hnone ⟨ends.1, ends.2, n, by omega, (distance_comm fun _ _ => Linked.symm).1 hdist⟩
      rw [found]

end Tables

end LayerGraph
