import Mathlib.Data.List.Chain
import Mathlib.Data.Nat.Find
import Mathlib.Data.Set.Card
import Mathlib.Order.Bounds.Basic

/-!
# Steps and distances

How many steps along a relation lead from one key to another, and how few are enough. Searches that
go level by level from a root are measured by this: the next level holds just the keys that lead to
the current one and have not been seen, and these are the keys one step further away.

Main statements:
1. `Distance.exists_step`: the way from a key to the root goes through all smaller distances.
2. `Levelled.next`: what a search knows one level further out.
3. `steps_map_iff`, `way_map_iff`, `distance_map_iff`: nothing of this depends on how keys are named.
4. `steps_iff_exists_way`, `Way.nodup`: steps are taken along a way, and a way that is as short as
   can be goes through no key twice.
-/

namespace LayerGraph

variable {α : Type} {R : α → α → Prop} {u v w root : α} {d i n : Nat}

/-! ## Steps -/

/-- So many steps along the relation lead from one key to another. -/
inductive Steps (R : α → α → Prop) : Nat → α → α → Prop
  | refl (u : α) : Steps R 0 u u
  | head {n : Nat} {u v w : α} : R u v → Steps R n v w → Steps R (n + 1) u w

theorem steps_zero_iff : Steps R 0 u v ↔ u = v := by
  constructor
  · rintro ⟨⟩
    rfl
  · rintro rfl
    exact .refl u

theorem steps_succ_iff : Steps R (n + 1) u w ↔ ∃ v, R u v ∧ Steps R n v w := by
  constructor
  · rintro ⟨⟩
    exact ⟨_, ‹_›, ‹_›⟩
  · rintro ⟨v, huv, hvw⟩
    exact .head huv hvw

/-! ## Ways -/

/-- The keys lead from one key to another in so many steps along the relation. -/
structure Way (R : α → α → Prop) (n : Nat) (u v : α) (p : List α) : Prop where
  head : p.head? = some u
  last : p.getLast? = some v
  chain : p.IsChain R
  length : p.length = n + 1

variable {p : List α}

theorem way_zero_iff : Way R 0 u v p ↔ u = v ∧ p = [u] := by
  constructor
  · rintro ⟨hhead, hlast, -, hlength⟩
    obtain ⟨w, rfl⟩ := List.length_eq_one_iff.1 hlength
    obtain rfl := Option.some.inj hhead
    obtain rfl := Option.some.inj hlast
    exact ⟨rfl, rfl⟩
  · rintro ⟨rfl, rfl⟩
    exact ⟨rfl, rfl, .singleton u, rfl⟩

theorem way_succ_iff : Way R (n + 1) u w p ↔ ∃ v q, p = u :: q ∧ R u v ∧ Way R n v w q := by
  constructor
  · rintro ⟨hhead, hlast, chain, hlength⟩
    obtain ⟨x, v, q, rfl⟩ : ∃ x v q, p = x :: v :: q := by
      match p, hlength with
      | x :: v :: q, _ => exact ⟨x, v, q, rfl⟩
    obtain rfl := Option.some.inj hhead
    obtain ⟨hstep, chain⟩ := List.isChain_cons_cons.1 chain
    rw [List.getLast?_cons_cons] at hlast
    exact ⟨v, v :: q, rfl, hstep, rfl, hlast, chain, Nat.succ.inj hlength⟩
  · rintro ⟨v, q, rfl, hstep, way⟩
    refine ⟨rfl, ?_, List.isChain_cons.2 ⟨?_, way.chain⟩, by rw [List.length_cons, way.length]⟩
    · rw [List.getLast?_cons, way.last]
      rfl
    · intro x hx
      obtain rfl := Option.some.inj (way.head.symm.trans hx)
      exact hstep

/-- Steps are taken along a way. -/
theorem steps_iff_exists_way : Steps R n u v ↔ ∃ p, Way R n u v p := by
  induction n generalizing u with
  | zero =>
    rw [steps_zero_iff]
    exact ⟨fun h => ⟨[u], way_zero_iff.2 ⟨h, rfl⟩⟩, fun ⟨_, way⟩ => (way_zero_iff.1 way).1⟩
  | succ n ih =>
    rw [steps_succ_iff]
    constructor
    · rintro ⟨w, hstep, steps⟩
      obtain ⟨q, way⟩ := ih.1 steps
      exact ⟨u :: q, way_succ_iff.2 ⟨w, q, rfl, hstep, way⟩⟩
    · rintro ⟨p, way⟩
      obtain ⟨w, q, -, hstep, way⟩ := way_succ_iff.1 way
      exact ⟨w, hstep, ih.2 ⟨q, way⟩⟩

theorem Way.steps (h : Way R n u v p) : Steps R n u v :=
  steps_iff_exists_way.2 ⟨p, h⟩

/-- Where the relation holds in both directions, ways can be taken back. -/
theorem Way.reverse (h : Way R n u v p) (symm : ∀ x y, R x y → R y x) : Way R n v u p.reverse where
  head := by rw [List.head?_reverse, h.last]
  last := by rw [List.getLast?_reverse, h.head]
  chain := by
    rw [List.isChain_reverse]
    exact h.chain.imp fun x y => symm x y
  length := by rw [List.length_reverse, h.length]

theorem Way.forall_mem {P : α → Prop} (h : Way R n u v p) (hu : P u)
    (carry : ∀ x y, R x y → P y) : ∀ x ∈ p, P x := by
  induction n generalizing u p with
  | zero =>
    obtain ⟨-, rfl⟩ := way_zero_iff.1 h
    exact List.forall_mem_singleton.2 hu
  | succ n ih =>
    obtain ⟨w, q, rfl, hstep, way⟩ := way_succ_iff.1 h
    exact List.forall_mem_cons.2 ⟨hu, ih way (carry u w hstep)⟩

/-- What stands on a way is less far from its end than the way is long. -/
theorem Way.exists_steps (h : Way R n u v p) {x : α} (hx : x ∈ p) : ∃ i ≤ n, Steps R i x v := by
  induction n generalizing u p with
  | zero =>
    obtain ⟨rfl, rfl⟩ := way_zero_iff.1 h
    obtain rfl := List.mem_singleton.1 hx
    exact ⟨0, Nat.le_refl 0, .refl x⟩
  | succ n ih =>
    obtain ⟨w, q, rfl, -, way⟩ := way_succ_iff.1 h
    rcases List.mem_cons.1 hx with rfl | hx
    · exact ⟨n + 1, Nat.le_refl _, h.steps⟩
    · obtain ⟨i, hi, steps⟩ := ih way hx
      exact ⟨i, Nat.le_succ_of_le hi, steps⟩

/-- The paths are all the ways from one key to another in so many steps, each once. -/
structure AllWays (R : α → α → Prop) (n : Nat) (u v : α) (paths : List (List α)) : Prop where
  nodup : paths.Nodup
  mem_iff : ∀ p, p ∈ paths ↔ Way R n u v p

theorem allWays_self (R : α → α → Prop) (u : α) : AllWays R 0 u u [[u]] where
  nodup := List.pairwise_singleton _ _
  mem_iff p := by
    rw [List.mem_singleton, way_zero_iff]
    exact ⟨fun hp => ⟨rfl, hp⟩, fun hp => hp.2⟩

/-! ## Distances -/

/-- So many steps lead from one key to another, and no fewer do. -/
def Distance (R : α → α → Prop) (u v : α) (d : Nat) : Prop :=
  IsLeast {n | Steps R n u v} d

theorem Distance.steps (h : Distance R u v d) : Steps R d u v := h.1

theorem Distance.le (h : Distance R u v d) (hn : Steps R n u v) : d ≤ n := h.2 hn

theorem exists_distance (h : Steps R n u v) : ∃ d ≤ n, Distance R u v d := by
  classical
  have some_steps : ∃ n, Steps R n u v := ⟨n, h⟩
  exact ⟨Nat.find some_steps, Nat.find_min' some_steps h, Nat.find_spec some_steps,
    fun _ hm => Nat.find_min' some_steps hm⟩

theorem distance_zero_iff : Distance R u v 0 ↔ u = v := by
  constructor
  · exact fun h => steps_zero_iff.1 h.steps
  · rintro rfl
    exact ⟨.refl u, fun _ _ => Nat.zero_le _⟩

theorem distance_comm (symm : ∀ x y, R x y → R y x) : Distance R u v d ↔ Distance R v u d := by
  have back : ∀ n x y, Steps R n x y → Steps R n y x := by
    intro n x y steps
    obtain ⟨p, way⟩ := steps_iff_exists_way.1 steps
    exact (way.reverse symm).steps
  have same : {n | Steps R n u v} = {n | Steps R n v u} :=
    Set.ext fun n => ⟨back n u v, back n v u⟩
  rw [Distance, Distance, same]

/-- The first of the fewest steps to the root leads to a key that is one step nearer. -/
theorem Distance.exists_step (h : Distance R u root (d + 1)) :
    ∃ v, R u v ∧ Distance R v root d := by
  obtain ⟨v, huv, hv⟩ := steps_succ_iff.1 h.steps
  refine ⟨v, huv, hv, fun n hn => ?_⟩
  exact Nat.le_of_succ_le_succ (h.le (.head huv hn))

/-- A way that is as short as can be goes through no key twice. -/
theorem Way.nodup (h : Way R n u v p) (hdist : Distance R u v n) : p.Nodup := by
  induction n generalizing u p with
  | zero =>
    obtain ⟨-, rfl⟩ := way_zero_iff.1 h
    exact List.pairwise_singleton _ u
  | succ n ih =>
    obtain ⟨w, q, rfl, hstep, way⟩ := way_succ_iff.1 h
    refine List.nodup_cons.2 ⟨fun hu => ?_, ih way ⟨way.steps, fun i hi => ?_⟩⟩
    · obtain ⟨i, hi, steps⟩ := way.exists_steps hu
      exact absurd (hdist.le steps) (Nat.not_le.2 (Nat.lt_succ_of_le hi))
    · exact Nat.le_of_succ_le_succ (hdist.le (.head hstep hi))

theorem Distance.exists_nearer (h : Distance R u root n) (hd : d ≤ n) :
    ∃ v, Distance R v root d := by
  induction n generalizing u with
  | zero => exact ⟨u, by rwa [Nat.le_zero.1 hd]⟩
  | succ n ih =>
    rcases Nat.eq_or_lt_of_le hd with rfl | hlt
    · exact ⟨u, h⟩
    · obtain ⟨v, -, hv⟩ := h.exists_step
      exact ih hv (Nat.le_of_lt_succ hlt)

/-! ## Keys under other names -/

section Map

variable {β : Type} {f : α → β} {x : β}

/-- Where keys are named apart, steps between names are steps between keys. -/
theorem steps_map_iff (hf : Function.Injective f) :
    Steps (Relation.Map R f f) n x (f v) ↔ ∃ u, f u = x ∧ Steps R n u v := by
  induction n generalizing x with
  | zero =>
    rw [steps_zero_iff]
    constructor
    · rintro rfl
      exact ⟨v, rfl, .refl v⟩
    · rintro ⟨u, rfl, steps⟩
      rw [steps_zero_iff.1 steps]
  | succ n ih =>
    rw [steps_succ_iff]
    constructor
    · rintro ⟨_, ⟨u, w, huw, rfl, rfl⟩, steps⟩
      obtain ⟨w', same, further⟩ := ih.1 steps
      obtain rfl := hf same
      exact ⟨u, rfl, .head huw further⟩
    · rintro ⟨u, rfl, steps⟩
      obtain ⟨w, huw, steps⟩ := steps_succ_iff.1 steps
      exact ⟨f w, ⟨u, w, huw, rfl, rfl⟩, ih.2 ⟨w, rfl, steps⟩⟩

theorem way_map_iff (hf : Function.Injective f) {q : List β} :
    Way (Relation.Map R f f) n x (f v) q ↔ ∃ u p, f u = x ∧ q = p.map f ∧ Way R n u v p := by
  induction n generalizing x q with
  | zero =>
    rw [way_zero_iff]
    constructor
    · rintro ⟨rfl, rfl⟩
      exact ⟨v, [v], rfl, rfl, way_zero_iff.2 ⟨rfl, rfl⟩⟩
    · rintro ⟨u, p, rfl, rfl, way⟩
      obtain ⟨rfl, rfl⟩ := way_zero_iff.1 way
      exact ⟨rfl, rfl⟩
  | succ n ih =>
    rw [way_succ_iff]
    constructor
    · rintro ⟨_, q, rfl, ⟨u, w, huw, rfl, rfl⟩, way⟩
      obtain ⟨w', p, same, rfl, further⟩ := ih.1 way
      obtain rfl := hf same
      exact ⟨u, u :: p, rfl, rfl, way_succ_iff.2 ⟨_, p, rfl, huw, further⟩⟩
    · rintro ⟨u, _, rfl, rfl, way⟩
      obtain ⟨w, p, rfl, huw, way⟩ := way_succ_iff.1 way
      exact ⟨f w, p.map f, rfl, ⟨u, w, huw, rfl, rfl⟩, ih.2 ⟨w, p, rfl, rfl, way⟩⟩

theorem distance_map_iff (hf : Function.Injective f) :
    Distance (Relation.Map R f f) x (f v) d ↔ ∃ u, f u = x ∧ Distance R u v d := by
  have same (u : α) : {n | Steps (Relation.Map R f f) n (f u) (f v)} = {n | Steps R n u v} := by
    refine Set.ext fun n => (steps_map_iff hf).trans ⟨?_, fun steps => ⟨u, rfl, steps⟩⟩
    rintro ⟨w, heq, steps⟩
    rwa [← hf heq]
  constructor
  · intro hdist
    obtain ⟨u, rfl, -⟩ := (steps_map_iff hf).1 hdist.steps
    refine ⟨u, rfl, ?_⟩
    rwa [Distance, ← same]
  · rintro ⟨u, rfl, hdist⟩
    rwa [Distance, same]

end Map

/-! ## Levels -/

/-- What a search from a root knows when it has come out to a distance: the keys it has seen are
those up to there, and its frontier holds those at just this distance. -/
structure Levelled (R : α → α → Prop) (root : α) (d : Nat)
    (seen frontier : List α) : Prop where
  seen_iff : ∀ u, u ∈ seen ↔ ∃ i ≤ d, Distance R u root i
  frontier_iff : ∀ u, u ∈ frontier ↔ Distance R u root d

variable {seen frontier level : List α}

theorem Levelled.start (R : α → α → Prop) (root : α) :
    Levelled R root 0 [root] [root] where
  seen_iff u := by
    rw [List.mem_singleton, ← distance_zero_iff (R := R)]
    constructor
    · exact fun h => ⟨0, Nat.le_refl 0, h⟩
    · rintro ⟨i, hi, h⟩
      rwa [Nat.le_zero.1 hi] at h
  frontier_iff u := by
    rw [List.mem_singleton, distance_zero_iff]

/-- The keys that lead to the frontier and have not been seen are the next frontier. -/
theorem Levelled.next (h : Levelled R root d seen frontier)
    (hlevel : ∀ u, u ∈ level ↔ u ∉ seen ∧ ∃ v ∈ frontier, R u v) :
    Levelled R root (d + 1) (seen ++ level) level := by
  have level_iff : ∀ u, u ∈ level ↔ Distance R u root (d + 1) := by
    intro u
    rw [hlevel, h.seen_iff]
    constructor
    · rintro ⟨unseen, v, hv, huv⟩
      have steps : Steps R (d + 1) u root := .head huv ((h.frontier_iff v).1 hv).steps
      obtain ⟨i, hi, hdist⟩ := exists_distance steps
      -- nearer keys have all been seen
      rcases Nat.eq_or_lt_of_le hi with rfl | hlt
      · exact hdist
      · exact absurd ⟨i, Nat.le_of_lt_succ hlt, hdist⟩ unseen
    · intro hdist
      obtain ⟨v, huv, hv⟩ := hdist.exists_step
      refine ⟨?_, v, (h.frontier_iff v).2 hv, huv⟩
      rintro ⟨i, hi, hnear⟩
      exact absurd (hdist.le hnear.steps) (Nat.not_le.2 (Nat.lt_succ_of_le hi))
  refine ⟨fun u => ?_, level_iff⟩
  rw [List.mem_append, h.seen_iff, level_iff]
  constructor
  · rintro (⟨i, hi, hdist⟩ | hdist)
    · exact ⟨i, Nat.le_succ_of_le hi, hdist⟩
    · exact ⟨d + 1, Nat.le_refl _, hdist⟩
  · rintro ⟨i, hi, hdist⟩
    rcases Nat.eq_or_lt_of_le hi with rfl | hlt
    · exact .inr hdist
    · exact .inl ⟨i, Nat.le_of_lt_succ hlt, hdist⟩

/-- Behind an empty level there is nothing. -/
theorem Levelled.not_distance (h : Levelled R root d seen []) (hn : d ≤ n) :
    ¬ Distance R u root n := by
  intro hdist
  obtain ⟨v, hv⟩ := hdist.exists_nearer hn
  exact absurd ((h.frontier_iff v).2 hv) List.not_mem_nil

/-! ## Numbers -/

/-- A list that holds just the things of a kind, each once, is as long as there are such things. -/
theorem encard_eq_length [DecidableEq α] {xs : List α} (nodup : xs.Nodup) {P : α → Prop}
    (mem_iff : ∀ a, a ∈ xs ↔ P a) : {a | P a}.encard = xs.length := by
  have same : {a | P a} = (xs.toFinset : Set α) := by
    ext a
    rw [Set.mem_ofPred_eq, List.coe_toFinset, Set.mem_ofPred_eq, mem_iff]
  rw [same, Set.encard_coe_eq_coe_finsetCard, List.toFinset_card_of_nodup nodup]

end LayerGraph
