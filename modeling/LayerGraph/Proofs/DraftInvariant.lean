import LayerGraph.Proofs.DraftMoves
import LayerGraph.Proofs.GraphInvariant

/-!
# What the order of a layer keeps

A draft places each member of its layer once. A node comes after all that it depends on, but for the
dependencies that were given up, and those are really violated: the source of a dependency that was
given up is placed before its target, whatever happens in between.

The last point rests on how the dependency to give up is chosen. The first cycle consists of first
links, and its lightest member `u` gives up its link to `v`. From then on there is a trail of first
links from `v` back to `u` over heavier nodes, so `v` is not ready as long as `u` is left. A later
drop does not cut the trail: it would be at a node of it, and the cycle that it breaks would be the
rest of the trail and what follows, which holds the lighter `u`.

Main statements:
1. `Trail.place`, `Trail.drop`: a trail stays until its end is placed.
2. `Sound.move`: each move keeps a draft sound.
3. `ofMembers_spec`: the draft ends, and it is sound.
-/

namespace LayerGraph.Draft

open Places

variable {g : Graph} {d d' : Draft} {members cycle : List NodeKey} {k u v source target : NodeKey}

/-! ## Trails -/

/-- First links lead from `v` to `u`, over nodes heavier than `u`. -/
def Trail (g : Graph) (d : Draft) (u v : NodeKey) : Prop :=
  Relation.ReflTransGen (fun a b => (d.waitsFor a).head? = some b ∧ Cycle.Lighter g u a) v u

/-- A way to `u` can stop where it first comes to `u`. -/
theorem reflTransGen_until {R : NodeKey → NodeKey → Prop} (h : Relation.ReflTransGen R v u) :
    Relation.ReflTransGen (fun a b => R a b ∧ a ≠ u) v u := by
  induction h using Relation.ReflTransGen.head_induction_on with
  | refl => exact .refl
  | @head a b hab _ ih =>
    by_cases ha : a = u
    · rw [ha]
    · exact .head ⟨hab, ha⟩ ih

/-- A node that waits for nothing lies on no trail but its own. -/
theorem Trail.ne_of_ready (h : Trail g d u v) (ready : d.waitsFor k = []) (hu : u ≠ k) : v ≠ k := by
  rintro rfl
  rcases Relation.ReflTransGen.cases_head h with rfl | ⟨b, ⟨hhead, -⟩, -⟩
  · exact hu rfl
  · rw [ready] at hhead
    exact absurd hhead (by simp)

theorem head?_filter_of_pos {p : NodeKey → Bool} {deps : List NodeKey} {b : NodeKey}
    (hhead : deps.head? = some b) (hb : p b = true) : (deps.filter p).head? = some b := by
  obtain ⟨rest, rfl⟩ := List.head?_eq_some_iff.1 hhead
  rw [List.filter_cons_of_pos hb]
  rfl

/-- Placing a node leaves the trails that end elsewhere. -/
theorem Trail.place (h : Trail g d u v) (ready : d.waitsFor k = []) (hu : u ≠ k) :
    Trail g (d.place k) u v := by
  induction h using Relation.ReflTransGen.head_induction_on with
  | refl => exact .refl
  | @head a b hab hrest ih =>
    have ha : a ≠ k := Trail.ne_of_ready (Relation.ReflTransGen.head hab hrest) ready hu
    have hb : b ≠ k := Trail.ne_of_ready hrest ready hu
    refine .head ⟨?_, hab.2⟩ ih
    rw [waitsFor_place, if_neg ha]
    exact head?_filter_of_pos hab.1 (decide_eq_true hb)

section Breaking

variable (first : Search.FirstLinks d.waitsFor cycle)
  (lightest : ∀ k ∈ cycle, k ≠ source → Cycle.Lighter g source k)

include first

/-- A cycle of first links is not left by following them. -/
theorem Trail.mem_cycle (h : Trail g d u v) (hv : v ∈ cycle) : u ∈ cycle := by
  induction h using Relation.ReflTransGen.head_induction_on with
  | refl => exact hv
  | @head a b hab _ ih =>
    obtain ⟨c, link⟩ := exists_next hv
    have same : some b = some c := hab.1.symm.trans (first a c link)
    obtain rfl := Option.some.inj same
    exact ih link.right_mem

include lightest

/-- Giving up a dependency of the lightest member of a cycle leaves all trails. -/
theorem Trail.drop (h : Trail g d u v) (hsource : source ∈ cycle) :
    Trail g (d.drop source target) u v := by
  induction h using Relation.ReflTransGen.head_induction_on with
  | refl => exact .refl
  | @head a b hab hrest ih =>
    have ha : a ≠ source := by
      rintro rfl
      -- from here the trail runs in the cycle, so its end would be lighter than the lightest member
      have hu : u ∈ cycle := Trail.mem_cycle first (Relation.ReflTransGen.head hab hrest) hsource
      by_cases heq : u = a
      · exact (heq ▸ hab.2).asymm (heq ▸ hab.2)
      · exact hab.2.asymm (lightest u hu heq)
    refine .head ⟨?_, hab.2⟩ ih
    rw [waitsFor_drop, if_neg ha]
    exact hab.1

/-- The rest of the cycle is a trail from the target of the dependency given up to its source. -/
theorem trail_of_drop (link : Next cycle source target) :
    Trail g (d.drop source target) source target := by
  -- the way round the cycle may come past the source, so it is cut at the first time
  have back : Relation.ReflTransGen (Next cycle) target source :=
    (transGen_of_mem (fun _ _ h => h) link.right_mem link.left_mem).to_reflTransGen
  refine Relation.ReflTransGen.mono ?_ _ _ (reflTransGen_until back)
  rintro a b ⟨hab, ha⟩
  refine ⟨?_, lightest a hab.left_mem ha⟩
  rw [waitsFor_drop, if_neg ha]
  exact first a b hab

end Breaking

/-! ## The invariant -/

/-- What holds of a draft at every moment.

* `respected`: a node is placed after what it depends on, but for what was given up.
* `violated`, `trail`: where a dependency was given up, the target is not placed before the source,
  and as long as the source is left, a trail of first links leads to it from the target. -/
structure Sound (g : Graph) (members : List NodeKey) (d : Draft) : Prop where
  perm : (d.placed ++ d.left).Perm members
  mem_waitsFor : ∀ k v, v ∈ d.waitsFor k ↔
    k ∈ d.left ∧ v ∈ d.left ∧ g.Depends k v ∧ (k, v) ∉ d.dropped
  nodup_waitsFor : ∀ k, (d.waitsFor k).Nodup
  nodup_dropped : d.dropped.Nodup
  dropped_depends : ∀ u v, (u, v) ∈ d.dropped → u ∈ members ∧ v ∈ members ∧ g.Depends u v
  respected : ∀ u v, u ∈ d.placed → v ∈ members → g.Depends u v → (u, v) ∉ d.dropped →
    Before d.placed v u
  violated : ∀ u v, (u, v) ∈ d.dropped → v ∈ d.placed → Before d.placed u v
  trail : ∀ u v, (u, v) ∈ d.dropped → u ∈ d.left → Trail g d u v

theorem Sound.mem_members (h : Sound g members d) : k ∈ members ↔ k ∈ d.placed ∨ k ∈ d.left := by
  rw [← h.perm.mem_iff, List.mem_append]

theorem Sound.nodup_left (h : Sound g members d) (nodup : members.Nodup) : d.left.Nodup :=
  (List.nodup_append.1 (h.perm.nodup_iff.2 nodup)).2.1

theorem Sound.not_left_of_placed (h : Sound g members d) (nodup : members.Nodup)
    (hk : k ∈ d.placed) : k ∉ d.left :=
  fun hk' => (List.nodup_append.1 (h.perm.nodup_iff.2 nodup)).2.2 k hk k hk' rfl

/-- What is left waits for what is left only, so a search among it has all that it relies on. -/
theorem Sound.domain (h : Sound g members d) (hg : g.WellFormed) (nodup : members.Nodup) :
    Search.Domain d.waitsFor d.left where
  nodup_nodes := h.nodup_left nodup
  closed k _ v hv := ((h.mem_waitsFor k v).1 hv).2.1
  nodup_succ := h.nodup_waitsFor
  irrefl k hk := hg.not_depends_self k ((h.mem_waitsFor k k).1 hk).2.2.1

theorem left_start (g : Graph) (members : List NodeKey) : (start g members).left = members := by
  rw [left, start, List.map_map]
  exact List.map_id members

theorem sound_start (nodup : members.Nodup) : Sound g members (start g members) := by
  have left_eq := left_start g members
  have waits : ∀ k ∈ members,
      (start g members).waitsFor k = (g.successors k).filter (· ∈ members) := by
    intro k hk
    refine waitsFor_of_mem (left_eq.symm ▸ nodup) ?_
    exact List.mem_map.2 ⟨k, hk, rfl⟩
  have waits' : ∀ k, k ∉ members → (start g members).waitsFor k = [] := by
    intro k hk
    exact waitsFor_of_not_mem (left_eq.symm ▸ hk)
  refine ⟨?_, ?_, ?_, List.nodup_nil, ?_, ?_, ?_, ?_⟩
  · rw [left_eq]
    exact List.Perm.refl _
  · intro k v
    rw [left_eq]
    by_cases hk : k ∈ members
    · rw [waits k hk, List.mem_filter, Graph.mem_successors, decide_eq_true_iff]
      exact ⟨fun h => ⟨hk, h.2, h.1, List.not_mem_nil⟩, fun h => ⟨h.2.2.1, h.2.1⟩⟩
    · rw [waits' k hk]
      exact ⟨fun h => absurd h List.not_mem_nil, fun h => absurd h.1 hk⟩
  · intro k
    by_cases hk : k ∈ members
    · rw [waits k hk]
      exact (Graph.nodup_successors g k).filter _
    · rw [waits' k hk]
      exact List.nodup_nil
  · exact fun _ _ h => absurd h List.not_mem_nil
  · exact fun _ _ h => absurd h List.not_mem_nil
  · exact fun _ _ h => absurd h List.not_mem_nil
  · exact fun _ _ h => absurd h List.not_mem_nil

theorem Sound.place (h : Sound g members d) (hg : g.WellFormed) (nodup : members.Nodup)
    (hk : k ∈ d.left) (ready : d.waitsFor k = []) : Sound g members (d.place k) where
  perm := by
    rw [left_place_eq_erase (h.nodup_left nodup)]
    show ((d.placed ++ [k]) ++ d.left.erase k).Perm members
    rw [← List.append_cons]
    exact ((List.perm_cons_erase hk).symm.append_left d.placed).trans h.perm
  mem_waitsFor := by
    intro j v
    rw [waitsFor_place, left_place]
    show _ ↔ _ ∧ _ ∧ _ ∧ (j, v) ∉ d.dropped
    by_cases hj : j = k
    · simp [hj]
    · rw [if_neg hj, List.mem_filter, h.mem_waitsFor]
      simp only [List.mem_filter, decide_eq_true_iff]
      exact ⟨fun ⟨⟨hjl, hvl, hdep, hnot⟩, hv⟩ => ⟨⟨hjl, hj⟩, ⟨hvl, hv⟩, hdep, hnot⟩,
        fun ⟨⟨hjl, _⟩, ⟨hvl, hv⟩, hdep, hnot⟩ => ⟨⟨hjl, hvl, hdep, hnot⟩, hv⟩⟩
  nodup_waitsFor := by
    intro j
    rw [waitsFor_place]
    split
    · exact List.nodup_nil
    · exact (h.nodup_waitsFor j).filter _
  nodup_dropped := h.nodup_dropped
  dropped_depends := h.dropped_depends
  respected := by
    intro u v hu hv hdep hnot
    rcases List.mem_append.1 hu with hu | hu
    · exact (h.respected u v hu hv hdep hnot).mono (List.sublist_append_left _ _)
    · obtain rfl := List.mem_singleton.1 hu
      rcases h.mem_members.1 hv with hplaced | hleft
      · exact before_append hplaced hu
      · -- a dependency that is left and was not given up is still waited for
        have hwaits : v ∈ d.waitsFor u := (h.mem_waitsFor u v).2 ⟨hk, hleft, hdep, hnot⟩
        rw [ready] at hwaits
        exact absurd hwaits List.not_mem_nil
  violated := by
    intro u v hmem hv
    rcases List.mem_append.1 hv with hv | hv
    · exact (h.violated u v hmem hv).mono (List.sublist_append_left _ _)
    · obtain rfl := List.mem_singleton.1 hv
      obtain ⟨hu, -, hdep⟩ := h.dropped_depends u v hmem
      rcases h.mem_members.1 hu with hplaced | hleft
      · exact before_append hplaced hv
      · -- the trail from `v` to `u` says that `v` is not ready
        have hne : u ≠ v := by
          rintro rfl
          exact hg.not_depends_self u hdep
        exact absurd rfl ((h.trail u v hmem hleft).ne_of_ready ready hne)
  trail := by
    intro u v hmem hu
    rw [left_place] at hu
    obtain ⟨hleft, hne⟩ := List.mem_filter.1 hu
    exact (h.trail u v hmem hleft).place ready (of_decide_eq_true hne)

theorem Sound.drop (h : Sound g members d) (nodup : members.Nodup)
    (first : Search.FirstLinks d.waitsFor cycle) (link : Next cycle source target)
    (lightest : ∀ k ∈ cycle, k ≠ source → Cycle.Lighter g source k) :
    Sound g members (d.drop source target) := by
  have hwaits : target ∈ d.waitsFor source := List.mem_of_head? (first source target link)
  obtain ⟨hsource, htarget, hdep, hnew⟩ := (h.mem_waitsFor source target).1 hwaits
  have mem_dropped : ∀ u v, (u, v) ∈ (d.drop source target).dropped ↔
      (u, v) ∈ d.dropped ∨ (u = source ∧ v = target) := by
    intro u v
    rw [Draft.drop, List.mem_append, List.mem_singleton, Prod.mk.injEq]
  refine ⟨?_, ?_, ?_, ?_, ?_, ?_, ?_, ?_⟩
  · rw [left_drop]
    exact h.perm
  · intro k v
    rw [waitsFor_drop, left_drop, mem_dropped]
    split
    · next heq =>
      rw [List.mem_filter, h.mem_waitsFor, decide_eq_true_iff]
      tauto
    · next hne =>
      rw [h.mem_waitsFor]
      tauto
  · intro k
    rw [waitsFor_drop]
    split
    · exact (h.nodup_waitsFor k).filter _
    · exact h.nodup_waitsFor k
  · show (d.dropped ++ [(source, target)]).Nodup
    rw [← List.concat_eq_append]
    exact h.nodup_dropped.concat hnew
  · intro u v hmem
    rcases (mem_dropped u v).1 hmem with hmem | ⟨rfl, rfl⟩
    · exact h.dropped_depends u v hmem
    · exact ⟨h.mem_members.2 (.inr hsource), h.mem_members.2 (.inr htarget), hdep⟩
  · intro u v hu hv hdep hnot
    exact h.respected u v hu hv hdep fun hmem => hnot ((mem_dropped u v).2 (.inl hmem))
  · intro u v hmem hv
    rcases (mem_dropped u v).1 hmem with hmem | ⟨-, rfl⟩
    · exact h.violated u v hmem hv
    · -- the target is waited for, so it is not placed yet
      exact absurd htarget (h.not_left_of_placed nodup hv)
  · intro u v hmem hu
    rw [left_drop] at hu
    rcases (mem_dropped u v).1 hmem with hmem | ⟨rfl, rfl⟩
    · exact (h.trail u v hmem hu).drop first lightest link.left_mem
    · exact trail_of_drop first lightest link

theorem Sound.move (h : Sound g members d) (hg : g.WellFormed) (nodup : members.Nodup)
    (m : Move g d d') : Sound g members d' := by
  cases m with
  | place hk ready => exact h.place hg nodup hk ready
  | drop first link lightest => exact h.drop nodup first link lightest

/-! ## The run -/

theorem left_ne_nil (unfinished : ¬ d.waiting.isEmpty = true) : d.left ≠ [] := by
  intro hnil
  exact unfinished (List.isEmpty_iff.2 (List.map_eq_nil_iff.1 hnil))

/-- What every move of a sound draft keeps holds after a run. -/
theorem Sound.run_induction {P : Draft → Prop} (hg : g.WellFormed) (nodup : members.Nodup)
    (keeps : ∀ d d', Sound g members d → Move g d d' → P d → P d') (n : Nat)
    (h : Sound g members d) (hd : P d) : P (run g n d) := by
  induction n generalizing d with
  | zero => exact hd
  | succ n ih =>
    unfold Draft.run
    split
    · exact hd
    · next unfinished =>
      have m := move_step (g := g) (h.domain hg nodup) (left_ne_nil unfinished)
      exact ih (h.move hg nodup m) (keeps _ _ h m hd)

theorem Sound.run (h : Sound g members d) (hg : g.WellFormed) (nodup : members.Nodup) (n : Nat) :
    Sound g members (run g n d) :=
  h.run_induction hg nodup (fun _ _ h m _ => h.move hg nodup m) n h

/-- As many steps as the bound says are enough. -/
theorem Sound.waiting_run (h : Sound g members d) (hg : g.WellFormed) (nodup : members.Nodup)
    {n : Nat} (hn : d.bound ≤ n) : (Draft.run g n d).waiting = [] := by
  induction n generalizing d with
  | zero =>
    cases hwaiting : d.waiting with
    | nil => exact hwaiting
    | cons entry rest => exact absurd hn (by simp [bound, hwaiting])
  | succ n ih =>
    unfold Draft.run
    split
    · next hdone => exact List.isEmpty_iff.1 hdone
    · next unfinished =>
      have m := move_step (g := g) (h.domain hg nodup) (left_ne_nil unfinished)
      have hless := bound_move (h.nodup_left nodup) m
      exact ih (h.move hg nodup m) (by omega)

/-- A draft with nothing left does not change any more. -/
theorem run_of_waiting_nil (hdone : d.waiting = []) (n : Nat) : run g n d = d := by
  cases n with
  | zero => rfl
  | succ n =>
    unfold run
    rw [if_pos (List.isEmpty_iff.2 hdone)]

/-- Once all have their places, more steps make no difference. -/
theorem run_add {m : Nat} (hdone : (run g m d).waiting = []) (n : Nat) :
    run g (m + n) d = run g m d := by
  induction m generalizing d with
  | zero =>
    rw [Nat.zero_add]
    exact run_of_waiting_nil hdone n
  | succ m ih =>
    rw [Nat.succ_add]
    unfold run at hdone ⊢
    split
    · rfl
    · next unfinished =>
      rw [if_neg unfinished] at hdone
      exact ih hdone

/-- The order of a layer gives each member a place and is sound. -/
theorem ofMembers_spec (hg : g.WellFormed) (nodup : members.Nodup) :
    Sound g members (ofMembers g members) ∧ (ofMembers g members).waiting = [] :=
  ⟨(sound_start nodup).run hg nodup _, (sound_start nodup).waiting_run hg nodup (Nat.le_refl _)⟩

/-- The order of a layer is not cut short: allowing more steps makes no difference and no member is
left, and each search for a cycle on the way comes to its end. -/
structure Ends (g : Graph) (members : List NodeKey) : Prop where
  steps : ∀ n, (start g members).bound ≤ n → run g n (start g members) = ofMembers g members
  all_placed : (ofMembers g members).waiting = []
  searches : ∀ n, let d := run g n (start g members)
    (Search.run d.waitsFor (Search.bound d.waitsFor d.left d.left) { roots := d.left }).isFinished

theorem ends (hg : g.WellFormed) (nodup : members.Nodup) : Ends g members where
  steps := by
    intro n hn
    obtain ⟨more, rfl⟩ := Nat.exists_eq_add_of_le hn
    exact run_add (ofMembers_spec hg nodup).2 more
  all_placed := (ofMembers_spec hg nodup).2
  searches := by
    intro n
    have dom := ((sound_start nodup).run hg nodup n).domain hg nodup
    exact Search.isFinished_run dom (.initial fun _ h => h) (Search.remaining_initial _).le

end LayerGraph.Draft
