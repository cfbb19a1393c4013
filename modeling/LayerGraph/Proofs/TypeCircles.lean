import LayerGraph.Proofs.Circuits
import LayerGraph.Proofs.CopiedGraph

/-!
# The circles within a type

A query for circles follows edges from each key to larger keys until one leads back to where it
began, and it stops as soon as it has listed a thousand circles. Without this bound it would list
every circle once: a circle is found from its smallest key only, and by one path. Since the keys at
which paths begin and the keys by which they go on are taken in order, the circles come in order too,
and what the bound leaves are the first of them.

Main statements:
1. `extendPath_eq`, `circles_eq`: the query lists the first of what it would list without a bound.
2. `mem_allCircles`, `ascending_allCircles`: that list holds each circle, in order.
3. `circle_of_mem_cycles`: the cycles that a graph lists are written in the same way.
4. `cycles_exact`: what a query lists of a graph that was copied.
-/

namespace LayerGraph

open Places
open Sorted (Ascending)

/-! ## Circles -/

/-- Different keys, at least two and at most so many, each of which is related to the next one and the
last one to the first, written from the smallest of them on. -/
structure Circle (R : NodeKey → NodeKey → Prop) (bound : Nat) (c : List NodeKey) : Prop where
  nodup : c.Nodup
  two_le : 2 ≤ c.length
  le_bound : c.length ≤ bound
  edges : ∀ u v, Next c u v → R u v
  least : ∃ k, c.head? = some k ∧ ∀ j ∈ c, Sorted.le k j = true

variable {R S : NodeKey → NodeKey → Prop} {c : List NodeKey} {bound : Nat}

theorem Circle.mono (h : Circle R bound c) (sub : ∀ u v, u ∈ c → v ∈ c → R u v → S u v) :
    Circle S bound c :=
  { h with edges := fun u v huv => sub u v huv.left_mem huv.right_mem (h.edges u v huv) }

/-- A relation holds round the end of a list just when it holds along the list with its first element
written once more at the end. -/
theorem isChain_concat_iff {s : NodeKey} (hs : c.head? = some s) :
    (c ++ [s]).IsChain R ↔ ∀ u v, Next c u v → R u v := by
  rw [List.isChain_append]
  constructor
  · rintro ⟨chain, -, closes⟩ u v huv
    refine rel_of_next chain (fun x y hx hy => ?_) huv
    obtain rfl := Option.some.inj (hs.symm.trans hy)
    exact closes x hx s rfl
  · intro holds
    refine ⟨(isChain_next c).imp fun u v => holds u v, .singleton s, fun x hx y hy => ?_⟩
    obtain rfl := Option.some.inj hy
    exact holds x s (next_getLast?_head? hx hs)

/-! ## The order of lists -/

section Order

variable {j k : NodeKey} {as bs : List NodeKey}

theorem reverse_cons_append (k : NodeKey) (as bs : List NodeKey) :
    (k :: as).reverse ++ bs = as.reverse ++ k :: bs := by
  rw [List.reverse_cons, ← List.append_cons]

theorem compare_cons_of_lt (h : compare j k = .lt) : compare (j :: as) (k :: bs) = .lt := by
  rw [List.compare_cons_cons, h]
  rfl

theorem compare_append_left (front : List NodeKey) :
    compare (front ++ as) (front ++ bs) = compare as bs := by
  induction front with
  | nil => rfl
  | cons k rest ih =>
    have same : compare k k = .eq := Std.ReflCmp.compare_self
    rw [List.cons_append, List.cons_append, List.compare_cons_cons, same, ih]
    rfl

/-- A list comes before those that go on from it. -/
theorem lt_append_cons (front : List NodeKey) (k : NodeKey) (rest : List NodeKey) :
    compare front (front ++ k :: rest) = .lt := by
  have same : compare (front ++ []) (front ++ k :: rest) = compare [] (k :: rest) :=
    compare_append_left front
  rw [List.append_nil] at same
  exact same

end Order

/-- A circle is a smallest key with others behind it, along edges that lead back to it in the end. -/
theorem circle_cons_iff {s : NodeKey} {q : List NodeKey} : Circle R bound (s :: q) ↔
    q ≠ [] ∧ q.length < bound ∧ (s :: (q ++ [s])).IsChain R ∧ (∀ k ∈ q, compare s k = .lt) ∧
      q.Nodup := by
  constructor
  · intro circle
    obtain ⟨hs, nodup⟩ := List.nodup_cons.1 circle.nodup
    obtain ⟨k, hk, least⟩ := circle.least
    obtain rfl := Option.some.inj hk
    refine ⟨?_, circle.le_bound, (isChain_concat_iff rfl).2 circle.edges, fun k hk => ?_, nodup⟩
    · rintro rfl
      exact absurd circle.two_le (by simp)
    · refine Sorted.lt_of_le_of_ne (least k (List.mem_cons_of_mem s hk)) ?_
      exact fun heq => hs (heq ▸ hk)
  · rintro ⟨hne, hlength, chain, beyond, nodup⟩
    have fresh : s ∉ q := fun hs => Sorted.ne_of_lt (beyond s hs) rfl
    refine ⟨List.nodup_cons.2 ⟨fresh, nodup⟩, ?_, hlength, (isChain_concat_iff rfl).1 chain, s, rfl,
      List.forall_mem_cons.2 ⟨Std.ReflCmp.isLE_rfl, fun k hk => ?_⟩⟩
    · exact Nat.succ_le_succ (List.length_pos_iff.2 hne)
    · rw [Sorted.le, beyond k hk]
      rfl

namespace Query

/-! ## Without the bound -/

/-- The circles that begin with a path, which is written backwards, and go on by a key: the one that
it closes, or those that are found beyond it. -/
def circlesBy (beyond : List NodeKey → List (List NodeKey)) (start : NodeKey)
    (path : List NodeKey) (k : NodeKey) : List (List NodeKey) :=
  if k = start then [path.reverse]
  else if compare start k = .lt ∧ k ∉ path then beyond (k :: path)
  else []

/-- The circles that begin with a path, one after the other. At most so many keys are looked at in a
row. -/
def circlesFrom (next : NodeKey → List NodeKey) (start : NodeKey) :
    Nat → List NodeKey → List (List NodeKey)
  | 0, _ => []
  | n + 1, path =>
    (next (path.headD start)).flatMap (circlesBy (circlesFrom next start n) start path)

/-- Notes circles in order as long as there is room. -/
def Harvest.addAll (h : Harvest) (cs : List (List NodeKey)) : Harvest where
  found := (cs.take h.room).reverse ++ h.found
  room := h.room - cs.length

variable {next : NodeKey → List NodeKey} {start p : NodeKey} {rest path : List NodeKey} {n : Nat}

theorem Harvest.addAll_nil (h : Harvest) : h.addAll [] = h := by
  rw [addAll, List.take_nil]
  rfl

theorem Harvest.addAll_append (h : Harvest) (as bs : List (List NodeKey)) :
    h.addAll (as ++ bs) = (h.addAll as).addAll bs := by
  unfold addAll
  rw [List.take_append, List.reverse_append, List.append_assoc, List.length_append, Nat.sub_add_eq]

theorem Harvest.addAll_full {h : Harvest} (full : h.room = 0) (cs : List (List NodeKey)) :
    h.addAll cs = h := by
  unfold addAll
  rw [full, List.take_zero, Nat.zero_sub, ← full]
  rfl

theorem Harvest.add_eq {h : Harvest} (room : h.room ≠ 0) (cycle : List NodeKey) :
    h.add cycle = h.addAll [cycle] := by
  unfold add addAll
  rw [List.take_of_length_le (by rw [List.length_singleton]; omega)]
  rfl

theorem Harvest.foldl_addAll {α : Type} {note : Harvest → α → Harvest}
    {part : α → List (List NodeKey)} (hnote : ∀ h a, note h a = h.addAll (part a)) (as : List α)
    (h : Harvest) : as.foldl note h = h.addAll (as.flatMap part) := by
  induction as generalizing h with
  | nil => exact h.addAll_nil.symm
  | cons a rest ih => rw [List.foldl_cons, hnote, ih, List.flatMap_cons, addAll_append]

/-- Going on from a path notes the circles that begin with it, as long as there is room. -/
theorem extendPath_eq (next : NodeKey → List NodeKey) (start : NodeKey) (steps : Nat)
    (path : List NodeKey) (h : Harvest) : extendPath next start steps path h =
      h.addAll (circlesFrom next start (steps + 1) path) := by
  induction steps generalizing path h with
  | zero =>
    unfold extendPath circlesFrom circlesBy
    refine Harvest.foldl_addAll (fun h k => ?_) _ h
    by_cases full : h.room = 0
    · rw [if_pos full, Harvest.addAll_full full]
    · rw [if_neg full]
      split
      · exact Harvest.add_eq full _
      · rw [circlesFrom, ite_self]
        exact h.addAll_nil.symm
  | succ steps ih =>
    unfold extendPath circlesFrom circlesBy
    refine Harvest.foldl_addAll (fun h k => ?_) _ h
    by_cases full : h.room = 0
    · rw [if_pos full, Harvest.addAll_full full]
    · rw [if_neg full]
      split
      · exact Harvest.add_eq full _
      · dsimp only
        split
        · exact ih (k :: path) h
        · exact h.addAll_nil.symm

/-- The keys that pairs lead to from a key. -/
def targets (pairs : List (NodeKey × NodeKey)) (k : NodeKey) : List NodeKey :=
  Sorted.distinct ((pairs.filter (·.1 = k)).map (·.2))

/-- All circles of at most `bound` keys along the given pairs, none of which joins a key to
itself. -/
def allCircles (pairs : List (NodeKey × NodeKey)) (bound : Nat) : List (List NodeKey) :=
  if bound < 2 then []
  else
    (Sorted.distinct (pairs.map (·.1))).flatMap fun s => circlesFrom (targets pairs) s bound [s]

theorem circles_eq (pairs : List (NodeKey × NodeKey)) (bound : Nat) :
    circles pairs bound =
      (allCircles (pairs.filter fun (s, t) => s ≠ t) bound).take maxCycles := by
  unfold circles allCircles
  dsimp only
  split
  · rfl
  · next hbound =>
    have steps : bound - 1 + 1 = bound := by omega
    rw [Harvest.foldl_addAll (fun h s => extendPath_eq _ s (bound - 1) [s] h), steps]
    show ((_ : List (List NodeKey)).reverse ++ []).reverse = _
    rw [List.append_nil, List.reverse_reverse]
    rfl

/-! ## What is found -/

theorem mem_circlesBy {beyond : List NodeKey → List (List NodeKey)} {k : NodeKey} :
    c ∈ circlesBy beyond start path k ↔
      (k = start ∧ c = path.reverse) ∨
        (compare start k = .lt ∧ k ∉ path ∧ c ∈ beyond (k :: path)) := by
  unfold circlesBy
  split
  · next heq =>
    rw [List.mem_singleton]
    constructor
    · exact fun hc => .inl ⟨heq, hc⟩
    · rintro (⟨-, hc⟩ | ⟨hlt, -⟩)
      · exact hc
      · exact absurd heq.symm (Sorted.ne_of_lt hlt)
  · next hne =>
    split
    · next hnew =>
      constructor
      · exact fun hc => .inr ⟨hnew.1, hnew.2, hc⟩
      · rintro (⟨heq, -⟩ | ⟨-, -, hc⟩)
        · exact absurd heq hne
        · exact hc
    · next hnew =>
      constructor
      · exact fun hc => absurd hc List.not_mem_nil
      · rintro (⟨heq, -⟩ | ⟨hlt, hk, -⟩)
        · exact absurd heq hne
        · exact absurd ⟨hlt, hk⟩ hnew

/-- The circles that begin with a path go on along edges, to keys that are larger than the first one
and not on the path yet, until an edge leads back to the start. -/
theorem mem_circlesFrom : c ∈ circlesFrom next start n (p :: rest) ↔
    ∃ q, c = (p :: rest).reverse ++ q ∧ q.length < n ∧
      (p :: (q ++ [start])).IsChain (fun u v => v ∈ next u) ∧
      (∀ k ∈ q, compare start k = .lt ∧ k ∉ p :: rest) ∧ q.Nodup := by
  induction n generalizing p rest with
  | zero =>
    constructor
    · exact fun hc => absurd hc List.not_mem_nil
    · rintro ⟨q, -, hlength, -⟩
      exact absurd hlength (Nat.not_lt_zero _)
  | succ n ih =>
    unfold circlesFrom
    simp only [List.mem_flatMap, mem_circlesBy, List.headD_cons, ih]
    constructor
    · rintro ⟨k, hk, ⟨rfl, rfl⟩ | ⟨hlt, hnew, q, rfl, hlength, chain, fresh, nodup⟩⟩
      · exact ⟨[], (List.append_nil _).symm, Nat.succ_pos n,
          List.isChain_cons_cons.2 ⟨hk, .singleton k⟩, by simp, List.nodup_nil⟩
      · refine ⟨k :: q, reverse_cons_append k _ q, Nat.succ_lt_succ hlength,
          List.isChain_cons_cons.2 ⟨hk, chain⟩, ?_, ?_⟩
        · refine List.forall_mem_cons.2 ⟨⟨hlt, hnew⟩, fun j hj => ?_⟩
          exact ⟨(fresh j hj).1, fun hmem => (fresh j hj).2 (List.mem_cons_of_mem k hmem)⟩
        · exact List.nodup_cons.2 ⟨fun hk => (fresh k hk).2 List.mem_cons_self, nodup⟩
    · rintro ⟨q, rfl, hlength, chain, fresh, nodup⟩
      cases q with
      | nil => exact ⟨start, (List.isChain_cons_cons.1 chain).1, .inl ⟨rfl, List.append_nil _⟩⟩
      | cons k q =>
        obtain ⟨hk, chain⟩ := List.isChain_cons_cons.1 chain
        obtain ⟨⟨hlt, hnew⟩, fresh⟩ := List.forall_mem_cons.1 fresh
        obtain ⟨hfirst, nodup⟩ := List.nodup_cons.1 nodup
        refine ⟨k, hk, .inr ⟨hlt, hnew, q, (reverse_cons_append k _ q).symm,
          Nat.lt_of_succ_lt_succ hlength, chain, fun j hj => ⟨(fresh j hj).1, fun hmem => ?_⟩, nodup⟩⟩
        rcases List.mem_cons.1 hmem with rfl | hmem
        · exact hfirst hj
        · exact (fresh j hj).2 hmem

/-- They come in the order of their keys, if the keys to go on by do. -/
theorem ascending_circlesFrom (hnext : ∀ k, Ascending (next k)) :
    Ascending (circlesFrom next start n (p :: rest)) := by
  induction n generalizing p rest with
  | zero => exact List.Pairwise.nil
  | succ n ih =>
    unfold circlesFrom
    refine List.pairwise_flatMap.2 ⟨fun k _ => ?_, (hnext _).imp fun {j k} hlt x hx y hy => ?_⟩
    · unfold circlesBy
      split
      · exact List.pairwise_singleton _ _
      · split
        · exact ih
        · exact List.Pairwise.nil
    · -- a circle that goes on by a key is compared by it, and a closed one comes before those
      rcases mem_circlesBy.1 hx with ⟨rfl, rfl⟩ | ⟨hstart, -, hx⟩
      · rcases mem_circlesBy.1 hy with ⟨rfl, -⟩ | ⟨-, -, hy⟩
        · exact absurd rfl (Sorted.ne_of_lt hlt)
        · obtain ⟨q, rfl, -⟩ := mem_circlesFrom.1 hy
          rw [reverse_cons_append]
          exact lt_append_cons _ k q
      · rcases mem_circlesBy.1 hy with ⟨rfl, -⟩ | ⟨-, -, hy⟩
        · exact absurd rfl (Sorted.ne_of_lt (Std.TransCmp.lt_trans hstart hlt))
        · obtain ⟨q, rfl, -⟩ := mem_circlesFrom.1 hx
          obtain ⟨q', rfl, -⟩ := mem_circlesFrom.1 hy
          rw [reverse_cons_append j, reverse_cons_append k, compare_append_left]
          exact compare_cons_of_lt hlt

variable {pairs : List (NodeKey × NodeKey)} {u v : NodeKey}

theorem mem_targets : v ∈ targets pairs u ↔ (u, v) ∈ pairs := by
  unfold targets
  rw [Sorted.mem_distinct, List.mem_map]
  constructor
  · rintro ⟨⟨s, t⟩, hmem, rfl⟩
    obtain ⟨hpair, heq⟩ := List.mem_filter.1 hmem
    obtain rfl := of_decide_eq_true heq
    exact hpair
  · exact fun hpair => ⟨(u, v), List.mem_filter.2 ⟨hpair, decide_eq_true rfl⟩, rfl⟩

/-- Without the bound all circles along the pairs are listed, and nothing else. -/
theorem mem_allCircles (irrefl : ∀ k, (k, k) ∉ pairs) :
    c ∈ allCircles pairs bound ↔ Circle (fun u v => (u, v) ∈ pairs) bound c := by
  unfold allCircles
  split
  · next hbound =>
    constructor
    · exact fun hc => absurd hc List.not_mem_nil
    · intro circle
      have := circle.two_le
      have := circle.le_bound
      omega
  · next hbound =>
    simp only [List.mem_flatMap, mem_circlesFrom, List.reverse_singleton, List.singleton_append,
      mem_targets]
    constructor
    · rintro ⟨s, -, q, rfl, hlength, chain, fresh, nodup⟩
      refine circle_cons_iff.2 ⟨?_, hlength, chain, fun k hk => (fresh k hk).1, nodup⟩
      rintro rfl
      exact irrefl s (List.isChain_cons_cons.1 chain).1
    · intro circle
      obtain ⟨s, hhead, -⟩ := circle.least
      obtain ⟨q, rfl⟩ : ∃ q, c = s :: q := List.head?_eq_some_iff.1 hhead
      obtain ⟨-, hlength, chain, beyond, nodup⟩ := circle_cons_iff.1 circle
      obtain ⟨v, hnext⟩ := exists_next (List.mem_cons_self (a := s) (l := q))
      refine ⟨s, Sorted.mem_distinct.2 (List.mem_map.2 ⟨(s, v), circle.edges s v hnext, rfl⟩), q, rfl,
        hlength, chain, fun k hk => ⟨beyond k hk, fun hmem => ?_⟩, nodup⟩
      exact Sorted.ne_of_lt (beyond k hk) (List.mem_singleton.1 hmem).symm

theorem ascending_allCircles (pairs : List (NodeKey × NodeKey)) (bound : Nat) :
    Ascending (allCircles pairs bound) := by
  unfold allCircles
  split
  · exact List.Pairwise.nil
  · refine List.pairwise_flatMap.2 ⟨fun s _ => ?_, ?_⟩
    · exact ascending_circlesFrom fun k => Sorted.pairwise_distinct _
    · refine (Sorted.pairwise_distinct _).imp fun {s t} hlt x hx y hy => ?_
      obtain ⟨q, rfl, -⟩ := mem_circlesFrom.1 hx
      obtain ⟨q', rfl, -⟩ := mem_circlesFrom.1 hy
      exact compare_cons_of_lt hlt

end Query

/-! ## Cycles that a graph lists -/

/-- Writing a cycle from its smallest key on puts this key in front. -/
theorem exists_least_rotateToLeast (hc : c ≠ []) :
    ∃ k, (rotateToLeast c).head? = some k ∧ ∀ j ∈ rotateToLeast c, Sorted.le k j = true := by
  obtain ⟨k, hleast⟩ := Sorted.exists_least? id hc
  obtain ⟨hmem, below⟩ := Sorted.least?_spec hleast
  refine ⟨k, ?_, fun j hj => below j ((isRotated_rotateToLeast c).mem_iff.1 hj)⟩
  rw [rotateToLeast, hleast]
  dsimp only
  cases hrest : c.dropWhile (· ≠ k) with
  | nil =>
    have all := List.dropWhile_eq_nil_iff.1 hrest k hmem
    exact absurd rfl (of_decide_eq_true all)
  | cons j rest =>
    have first := List.head?_dropWhile_not (fun j => decide (j ≠ k)) c
    rw [hrest] at first
    obtain rfl : j = k := not_not.1 (of_decide_eq_false first)
    rfl

/-- Every cycle that a search lists is written from its smallest key on. -/
theorem Search.exists_rotateToLeast (succ : NodeKey → List NodeKey) (roots nodes : List NodeKey) :
    ∀ c ∈ findCycles succ roots nodes, ∃ xs, c = rotateToLeast xs := by
  have keeps : ∀ (s : Search) b s' (backs : List (NodeKey × NodeKey)), Move succ s b s' →
      (∀ c ∈ s.found, ∃ xs, c = rotateToLeast xs) → ∀ c ∈ s'.found, ∃ xs, c = rotateToLeast xs := by
    intro s b s' _ m h
    cases m with
    | skip _ | start _ | leave | enter _ | pass _ => exact h
    | @close roots marks node next pending outer found hmark =>
      rw [Search.close]
      split
      · dsimp only
        split
        · exact h
        · intro c hc
          rcases List.mem_append.1 hc with hc | hc
          · exact h c hc
          · exact ⟨_, List.mem_singleton.1 hc⟩
      · exact h
  exact run_induction keeps _ { roots } [] fun _ hc => absurd hc List.not_mem_nil

/-- The members of a cycle that a graph lists are a circle of it. -/
theorem Graph.WellFormed.circle_of_mem_cycles {g : Graph} (h : g.WellFormed) {cycle : Cycle}
    (hcycle : cycle ∈ g.cycles) : Circle g.Depends cycle.members.length cycle.members := by
  obtain ⟨backs, -, links, -⟩ := Search.findCycles_spec h.domain (fun _ hk => hk)
  have members_eq := members_cycles (links.imp fun _ _ hc => And.intro hc.2.1 hc.2.2)
  have found : cycle.members ∈ findCycles g.successors g.sortedKeys g.sortedKeys :=
    members_eq ▸ List.mem_map_of_mem hcycle
  obtain ⟨b, nodup, edges, link⟩ := Search.exists_of_forall₂ links found
  obtain ⟨xs, hxs⟩ := Search.exists_rotateToLeast _ _ _ _ found
  have depends : ∀ u v, Next cycle.members u v → g.Depends u v :=
    fun u v huv => mem_successors.1 (edges u v huv)
  refine ⟨nodup, ?_, Nat.le_refl _, depends, ?_⟩
  · -- a member of a cycle of one key would depend on itself
    refine link.two_le_length fun same => ?_
    have hdep := depends b.1 b.2 link
    rw [same] at hdep
    exact h.not_depends_self b.2 hdep
  · rw [hxs]
    refine exists_least_rotateToLeast fun hnil => ?_
    rw [hnil] at hxs
    exact absurd (hxs ▸ link.left_mem) List.not_mem_nil

/-! ## What a query lists -/

namespace StoredGraph

variable {m : StoredGraph} {type : NodeType} {u v : NodeKey}

theorem mem_typedEdges : (u, v) ∈ m.typedEdges type ↔
    m.Depends u v ∧ (u.type = type ∧ u ∈ m.keys ∧ isReadable u = true) ∧
      (v.type = type ∧ v ∈ m.keys ∧ isReadable v = true) := by
  unfold typedEdges Depends
  simp only [List.mem_filter, List.mem_flatMap, List.mem_map, mem_byText, Sorted.mem_distinct,
    Bool.and_eq_true, decide_eq_true_eq, contains_iff]
  constructor
  · rintro ⟨⟨s, ⟨⟨e, he, rfl⟩, hs, hs'⟩, t, ⟨⟨e', ⟨he', hsource⟩, rfl⟩, ht, ht'⟩, heq⟩, hu, hv⟩
    obtain ⟨rfl, rfl⟩ := Prod.mk.inj heq
    exact ⟨⟨e', he', hsource, rfl⟩, ⟨hs, hs', hu⟩, ht, ht', hv⟩
  · rintro ⟨⟨e, he, rfl, rfl⟩, ⟨hs, hs', hu⟩, ht, ht', hv⟩
    exact ⟨⟨e.source, ⟨⟨e, he, rfl⟩, hs, hs'⟩, e.target, ⟨⟨e, ⟨he, rfl⟩, rfl⟩, ht, ht'⟩, rfl⟩, hu, hv⟩

end StoredGraph

section Listed

variable {g : Graph} {m : StoredGraph} {run : String} {type : NodeType}

/-- The edges of one type that a mirror of a graph lists are those of the graph. -/
theorem mem_typedEdges_iff (hg : Build.IsBuilt g) (mirrors : Sync.Mirrors run g m) {u v : NodeKey} :
    (u, v) ∈ (m.typedEdges type).filter (fun (s, t) => s ≠ t) ↔
      g.Depends u v ∧ u.type = type ∧ v.type = type := by
  rw [List.mem_filter, StoredGraph.mem_typedEdges, mirrors.depends_iff, mirrors.mem_keys,
    mirrors.mem_keys]
  constructor
  · rintro ⟨⟨hdep, ⟨hu, -⟩, hv, -⟩, -⟩
    exact ⟨hdep, hu, hv⟩
  · rintro ⟨hdep, hu, hv⟩
    obtain ⟨hu', hv'⟩ := hg.wellFormed.depends_mem hdep
    refine ⟨⟨hdep, ⟨hu, hu', hg.isReadable hu'⟩, hv, hv', hg.isReadable hv'⟩, decide_eq_true ?_⟩
    rintro rfl
    exact hg.wellFormed.not_depends_self u hdep

theorem circle_typed_iff (hg : Build.IsBuilt g) (mirrors : Sync.Mirrors run g m) :
    Circle (fun u v => (u, v) ∈ (m.typedEdges type).filter (fun (s, t) => s ≠ t)) bound c ↔
      Circle g.Depends bound c ∧ ∀ k ∈ c, k.type = type := by
  constructor
  · intro circle
    refine ⟨circle.mono fun u v _ _ huv => ((mem_typedEdges_iff hg mirrors).1 huv).1, fun k hk => ?_⟩
    obtain ⟨v, hnext⟩ := exists_next hk
    exact ((mem_typedEdges_iff hg mirrors).1 (circle.edges k v hnext)).2.1
  · rintro ⟨circle, typed⟩
    exact circle.mono fun u v hu hv hdep =>
      (mem_typedEdges_iff hg mirrors).2 ⟨hdep, typed u hu, typed v hv⟩

end Listed

namespace GraphStore

variable {g : Graph} {m : StoredGraph} {run : String} {s : GraphStore} {disk : Disk}
  {limits : QueryLimits}

/-- A store that holds the copy of a graph lists the first thousand of its circles within a type. The
cycles that the graph lists itself are among its circles. -/
theorem cycles_exact (hg : Build.IsBuilt g) (copied : Sync.Copied run g m)
    (answers : s.Answers disk limits.timeout [.ping, .typedEdges] m) (type : NodeType)
    (maxLength : Nat) :
    ∃ all : List (List NodeKey), Ascending all ∧
      (∀ c, c ∈ all ↔ Circle g.Depends (min maxLength limits.maxCycleLength) c ∧
        ∀ k ∈ c, k.type = type) ∧
      (s.cycles disk limits type maxLength).1 = .available (all.take 1000) ∧
      ∀ cycle ∈ g.cycles, (∀ k ∈ cycle.members, k.type = type) →
        cycle.members.length ≤ min maxLength limits.maxCycleLength → cycle.members ∈ all := by
  have mirrors := copied.mirrors hg.wellFormed
  let pairs := (m.typedEdges type).filter fun (s, t) => s ≠ t
  have irrefl : ∀ k, (k, k) ∉ pairs := by
    intro k hk
    exact hg.wellFormed.not_depends_self k ((mem_typedEdges_iff hg mirrors).1 hk).1
  have mem_iff : ∀ c, c ∈ Query.allCircles pairs (min maxLength limits.maxCycleLength) ↔
      Circle g.Depends (min maxLength limits.maxCycleLength) c ∧ ∀ k ∈ c, k.type = type :=
    fun c => (Query.mem_allCircles irrefl).trans (circle_typed_iff hg mirrors)
  refine ⟨_, Query.ascending_allCircles pairs _, mem_iff, ?_, fun cycle hcycle typed short => ?_⟩
  · rw [answers.cycles, Query.cycles, Query.circles_eq]
    rfl
  · have circle := hg.wellFormed.circle_of_mem_cycles hcycle
    exact (mem_iff _).2 ⟨{ circle with le_bound := short }, typed⟩

/-- Two circles that share an edge are both listed, each from its smallest key on. -/
theorem cycles_exact_circle :
    ∃ all : List (List NodeKey), Ascending all ∧
      (GraphStore.cycles { place := .memory circleCopy } {} {} .classDef 3).1 =
        .available (all.take 1000) ∧
      [⟨.classDef, "A"⟩, ⟨.classDef, "B"⟩] ∈ all ∧
      [⟨.classDef, "A"⟩, ⟨.classDef, "B"⟩, ⟨.classDef, "C"⟩] ∈ all ∧
      [⟨.classDef, "B"⟩, ⟨.classDef, "A"⟩] ∉ all := by
  obtain ⟨-, copied, answers⟩ := answers_circleCopy [.ping, .typedEdges] ({} : QueryLimits).timeout
  obtain ⟨all, ascending, mem_iff, listed, -⟩ :=
    cycles_exact isBuilt_circleGraph copied answers .classDef 3
  refine ⟨all, ascending, listed, ?_, ?_, ?_⟩
  · exact (mem_iff _).2 ⟨circle_cons_iff.2 (by decide), by decide⟩
  · exact (mem_iff _).2 ⟨circle_cons_iff.2 (by decide), by decide⟩
  · intro hmem
    exact absurd (circle_cons_iff.1 ((mem_iff _).1 hmem).1) (by decide)

end GraphStore

end LayerGraph
