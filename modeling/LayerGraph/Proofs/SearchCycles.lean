import LayerGraph.Proofs.Places
import LayerGraph.Proofs.SearchRun

/-!
# The cycles that a search finds

A search lists only the cycles that an edge into a node in progress closes, not all cycles. That is
enough to break all of them: without those edges, a node that is done leads only to nodes that were
done before it, so nothing leads back.

The search writes a cycle from its smallest key on and leaves out what it has listed. This never
loses an edge: the last edge of a listed cycle is told by the order in which its members were
entered, and each edge is looked at once.

Main statements:
1. `Reported.move`: each edge into a node in progress adds one new cycle, and it is a link of it.
2. `Explored.move`: what is done does not lead back once those edges are left out.
3. `Covers.move`: the search enters whatever it can reach.
4. `Sound.run`: all of this, for every run.
5. `findCycles_spec`: what the finished search has listed.
-/

namespace LayerGraph

open Places

/-- Writing a cycle from its smallest key on only chooses where it is cut. -/
theorem isRotated_rotateToLeast (cycle : List NodeKey) : rotateToLeast cycle ~r cycle := by
  rw [rotateToLeast]
  split
  · next hnone =>
    by_cases hcycle : cycle = []
    · rw [hcycle]
    · obtain ⟨a, ha⟩ := Sorted.exists_least? id hcycle
      rw [ha] at hnone
      exact absurd hnone (by simp)
  · next least _ =>
    have rotated : (cycle.dropWhile (· ≠ least) ++ cycle.takeWhile (· ≠ least)) ~r
        (cycle.takeWhile (· ≠ least) ++ cycle.dropWhile (· ≠ least)) := List.isRotated_append
    rw [List.takeWhile_append_dropWhile] at rotated
    exact rotated

namespace Search

variable {succ : NodeKey → List NodeKey} {nodes : List NodeKey} {s s' : Search}
  {b : Option (NodeKey × NodeKey)} {backs : List (NodeKey × NodeKey)}

/-! ## What a move leaves -/

/-- What a search knows stays known: nodes that were entered, nodes that are done, and successors
that were looked at. -/
structure Advance (s s' : Search) : Prop where
  entered : s.entered.Sublist s'.entered
  done : ∀ k, s.mark? k = some .done → s'.mark? k = some .done
  pending : ∀ f' ∈ s'.frames, f'.node ∈ s.entered →
    ∃ f ∈ s.frames, f.node = f'.node ∧ f'.pending ⊆ f.pending

theorem Advance.look {roots : List NodeKey} {marks : List (NodeKey × Mark)} {node next : NodeKey}
    {pending : List NodeKey} {outer : List Frame} {found found' : List (List NodeKey)} :
    Advance ⟨roots, marks, ⟨node, next :: pending⟩ :: outer, found⟩
      ⟨roots, marks, ⟨node, pending⟩ :: outer, found'⟩ where
  entered := List.Sublist.refl _
  done _ h := h
  pending := by
    intro f hf _
    rcases List.mem_cons.1 hf with rfl | hf
    · exact ⟨_, List.mem_cons_self, rfl, List.subset_cons_self next pending⟩
    · exact ⟨f, List.mem_cons_of_mem _ hf, rfl, List.Subset.refl _⟩

theorem Advance.enter {k : NodeKey} (hnew : s.mark? k = none) : Advance s (s.enter succ k) where
  entered := List.sublist_cons_self k _
  done := by
    intro j hj
    rw [Search.enter, mark?_cons]
    have hne : j ≠ k := by
      rintro rfl
      rw [hnew] at hj
      exact absurd hj (by simp)
    rw [if_neg hne]
    exact hj
  pending := by
    intro f hf hentered
    rcases List.mem_cons.1 hf with rfl | hf
    · exact absurd hentered (mark?_eq_none_iff.1 hnew)
    · exact ⟨f, hf, rfl, List.Subset.refl _⟩

theorem Advance.leave {roots : List NodeKey} {marks : List (NodeKey × Mark)} {node : NodeKey}
    {outer : List Frame} {found : List (List NodeKey)} :
    Advance ⟨roots, marks, ⟨node, []⟩ :: outer, found⟩
      (finish node ⟨roots, marks, outer, found⟩) where
  entered := by
    rw [entered_finish]
    exact List.Sublist.refl _
  done := by
    intro k hk
    have hmark : mark? ⟨roots, marks, outer, found⟩ k = some .done := hk
    rw [mark?_finish, hmark]
    simp
  pending f hf _ := ⟨f, List.mem_cons_of_mem _ hf, rfl, List.Subset.refl _⟩

theorem Advance.trans {s'' : Search} (h : Advance s s') (h' : Advance s' s'') : Advance s s'' where
  entered := h.entered.trans h'.entered
  done k hk := h'.done k (h.done k hk)
  pending := by
    intro f'' hf'' hentered
    obtain ⟨f', hf', node_eq', sub'⟩ := h'.pending f'' hf'' (h.entered.subset hentered)
    obtain ⟨f, hf, node_eq, sub⟩ := h.pending f' hf' (node_eq' ▸ hentered)
    exact ⟨f, hf, node_eq.trans node_eq', fun _ hk => sub (sub' hk)⟩

theorem Move.advance (m : Move succ s b s') : Advance s s' := by
  cases m with
  | skip _ => exact ⟨List.Sublist.refl _, fun _ h => h, fun _ h => absurd h List.not_mem_nil⟩
  | @start root roots marks found hnew =>
    have dropped : Advance ⟨root :: roots, marks, [], found⟩ ⟨roots, marks, [], found⟩ :=
      ⟨List.Sublist.refl _, fun _ h => h, fun _ h => absurd h List.not_mem_nil⟩
    exact dropped.trans (Advance.enter hnew)
  | leave => exact Advance.leave
  | enter hnew => exact Advance.look.trans (Advance.enter hnew)
  | @close _ _ _ next _ _ _ _ =>
    obtain ⟨found', heq⟩ := close_eq next
    rw [heq]
    exact Advance.look
  | pass _ => exact Advance.look

/-! ## Listed cycles -/

/-- What the search knows of a cycle in its list and of the edge `b` that closed it: the cycle is one
of edges, `b` is the link of it from a member to one that was entered earlier, and `b` has been looked
at. -/
structure ClosedBy (succ : NodeKey → List NodeKey) (s : Search) (cycle : List NodeKey)
    (b : NodeKey × NodeKey) : Prop where
  nodup : cycle.Nodup
  edges : ∀ u v, Next cycle u v → v ∈ succ u
  link : Next cycle b.1 b.2
  entered : Before s.entered b.1 b.2
  looked : ∀ f ∈ s.frames, f.node = b.1 → b.2 ∉ f.pending

theorem ClosedBy.advance {cycle : List NodeKey} {b : NodeKey × NodeKey}
    (h : ClosedBy succ s cycle b) (adv : Advance s s') : ClosedBy succ s' cycle b where
  nodup := h.nodup
  edges := h.edges
  link := h.link
  entered := h.entered.mono adv.entered
  looked := by
    intro f' hf' node_eq
    obtain ⟨f, hf, node_eq', sub⟩ := adv.pending f' hf' (node_eq ▸ h.entered.left_mem)
    exact fun hmem => h.looked f hf (node_eq'.trans node_eq) (sub hmem)

/-- The part of the search's path from `k` on. -/
def pathFrom (s : Search) (k : NodeKey) : List NodeKey :=
  s.path.dropWhile (· ≠ k)

theorem head?_pathFrom {k : NodeKey} (hk : k ∈ s.path) : (s.pathFrom k).head? = some k := by
  rw [pathFrom]
  generalize s.path = p at hk
  induction p with
  | nil => exact absurd hk List.not_mem_nil
  | cons j rest ih =>
    by_cases hj : j = k
    · simp [hj]
    · have hrest : k ∈ rest := (List.mem_cons.1 hk).resolve_left (Ne.symm hj)
      simpa [List.dropWhile_cons, hj] using ih hrest

theorem pathFrom_suffix (s : Search) (k : NodeKey) : s.pathFrom k <:+ s.path :=
  List.dropWhile_suffix _

/-- A path that closes anew is listed. -/
theorem close_of_not_mem {k : NodeKey} (hk : k ∈ s.path)
    (hnew : rotateToLeast (s.pathFrom k) ∉ s.found) :
    s.close k = { s with found := s.found ++ [rotateToLeast (s.pathFrom k)] } := by
  rw [close, if_pos hk]
  exact if_neg hnew

theorem mem_path {k : NodeKey} : k ∈ s.path ↔ k ∈ s.frames.map Frame.node := by
  rw [path, List.mem_reverse]

/-- The path runs along `succ`, and each node of it was entered after the one before it. -/
theorem Shape.isChain_path (h : Shape succ nodes s) :
    s.path.IsChain fun u v => v ∈ succ u ∧ Before s.entered v u := by
  rw [path, List.isChain_reverse]
  have along : (s.frames.map Frame.node).IsChain fun u v => u ∈ succ v :=
    (List.isChain_map _).2 h.chain
  have entered : (s.frames.map Frame.node).IsChain fun u v => Before s.entered u v :=
    ((pairwise_before _).imp fun hb => hb.mono h.path_sublist).isChain
  rw [List.isChain_iff_getElem] at along entered ⊢
  exact fun i hi => ⟨along i hi, entered i hi⟩

theorem getLast?_pathFrom {k : NodeKey} (hk : k ∈ s.path) :
    (s.pathFrom k).getLast? = s.path.getLast? := by
  obtain ⟨front, hfront⟩ := s.pathFrom_suffix k
  have hne : s.pathFrom k ≠ [] := by
    intro hnil
    have hhead := head?_pathFrom hk
    rw [hnil] at hhead
    exact absurd hhead (by simp)
  rw [← hfront, List.getLast?_append_of_ne_nil front hne]

/-! An edge from the current node to a node in progress closes the path from there on. -/

section Closing

variable {node next : NodeKey} {pending : List NodeKey} {outer : List Frame}

theorem getLast?_path (hframes : s.frames = ⟨node, pending⟩ :: outer) :
    s.path.getLast? = some node := by
  rw [path, hframes, List.map_cons, List.reverse_cons, List.getLast?_concat]

/-- What holds along the path and of the edge that closes it holds of every link of the cycle. -/
theorem rel_of_closed {R : NodeKey → NodeKey → Prop} (hframes : s.frames = ⟨node, pending⟩ :: outer)
    (hpath : next ∈ s.path) (chain : s.path.IsChain R) (closes : R node next) {u v : NodeKey}
    (link : Next (rotateToLeast (s.pathFrom next)) u v) : R u v := by
  rw [next_iff_of_isRotated (isRotated_rotateToLeast _)] at link
  refine rel_of_next (chain.suffix (s.pathFrom_suffix next)) ?_ link
  intro x y hx hy
  rw [getLast?_pathFrom hpath, getLast?_path hframes] at hx
  rw [head?_pathFrom hpath] at hy
  obtain rfl := Option.some.inj hx
  obtain rfl := Option.some.inj hy
  exact closes

/-- Each link of the closed path is an edge, and leads to a node entered later unless it is the edge
that closes the path. -/
theorem Shape.rel_of_link (h : Shape succ nodes s) (hframes : s.frames = ⟨node, pending⟩ :: outer)
    (hmark : s.mark? next = some .inProgress) (hnext : next ∈ succ node) {u v : NodeKey}
    (link : Next (rotateToLeast (s.pathFrom next)) u v) :
    v ∈ succ u ∧ (Before s.entered v u ∨ (u = node ∧ v = next)) := by
  have hpath : next ∈ s.path := mem_path.2 ((h.inProgress_iff next).1 hmark)
  refine rel_of_closed hframes hpath ?_ ?_ link
    (R := fun u v => v ∈ succ u ∧ (Before s.entered v u ∨ (u = node ∧ v = next)))
  · exact h.isChain_path.imp fun _ _ r => ⟨r.1, .inl r.2⟩
  · exact ⟨hnext, .inr ⟨rfl, rfl⟩⟩

theorem Shape.closedBy (dom : Domain succ nodes) (h : Shape succ nodes s)
    (hframes : s.frames = ⟨node, pending⟩ :: outer) (hmark : s.mark? next = some .inProgress)
    (hnext : next ∈ succ node) (looked : next ∉ pending) :
    ClosedBy succ s (rotateToLeast (s.pathFrom next)) (node, next) := by
  have hpath : next ∈ s.path := mem_path.2 ((h.inProgress_iff next).1 hmark)
  have rotated := isRotated_rotateToLeast (s.pathFrom next)
  have nodup := h.nodup_path
  have sub := h.path_sublist
  have inProgress := (h.inProgress_iff next).1 hmark
  rw [hframes, List.map_cons] at nodup sub inProgress
  have hne : next ≠ node := by
    rintro rfl
    exact dom.irrefl _ hnext
  constructor
  · rw [rotated.nodup_iff]
    exact (List.nodup_reverse.2 h.nodup_path).sublist (s.pathFrom_suffix next).sublist
  · exact fun u v link => (h.rel_of_link hframes hmark hnext link).1
  · rw [next_iff_of_isRotated rotated]
    refine next_getLast?_head? ?_ (head?_pathFrom hpath)
    rw [getLast?_pathFrom hpath, getLast?_path hframes]
  · have houter : next ∈ outer.map Frame.node := (List.mem_cons.1 inProgress).resolve_left hne
    exact ((List.singleton_sublist.2 houter).cons_cons node).trans sub
  · intro f hf node_eq
    rw [hframes] at hf
    rcases List.mem_cons.1 hf with rfl | hf
    · exact looked
    · have hnode : f.node ∈ outer.map Frame.node := List.mem_map_of_mem hf
      rw [node_eq] at hnode
      exact absurd hnode (List.nodup_cons.1 nodup).1

end Closing

/-- The cycles listed so far are different, and they belong to the edges looked at so far that led
into a node in progress, one to each and in the same order. -/
structure Reported (succ : NodeKey → List NodeKey) (s : Search)
    (backs : List (NodeKey × NodeKey)) : Prop where
  nodup : s.found.Nodup
  closedBy : List.Forall₂ (ClosedBy succ s) s.found backs

theorem Reported.advance (h : Reported succ s backs) (adv : Advance s s')
    (same : s'.found = s.found) : Reported succ s' backs where
  nodup := same ▸ h.nodup
  closedBy := same ▸ h.closedBy.imp fun _ _ c => c.advance adv

theorem exists_of_forall₂ {α β : Type} {R : α → β → Prop} {as : List α} {bs : List β}
    (h : List.Forall₂ R as bs) {a : α} (ha : a ∈ as) : ∃ b, R a b := by
  induction h with
  | nil => exact absurd ha List.not_mem_nil
  | cons r _ ih =>
    rcases List.mem_cons.1 ha with rfl | ha
    · exact ⟨_, r⟩
    · exact ih ha

/-- The cycle that an edge closes is not listed yet, cut anywhere. Were it listed, then so was the edge
that closes it, since that is its only link to a node entered earlier. But this edge has not been
looked at before. -/
theorem Reported.not_isRotated {node next : NodeKey} {pending : List NodeKey} {outer : List Frame}
    (h : Reported succ s backs) (shape : Shape succ nodes s)
    (hframes : s.frames = ⟨node, next :: pending⟩ :: outer)
    (hmark : s.mark? next = some .inProgress) {cycle : List NodeKey} (hcycle : cycle ∈ s.found) :
    ¬ cycle ~r s.pathFrom next := by
  intro rotated
  have hframe : ⟨node, next :: pending⟩ ∈ s.frames := hframes ▸ List.mem_cons_self
  have hnext : next ∈ succ node := (shape.pending_suffix _ hframe).subset List.mem_cons_self
  obtain ⟨⟨u, v⟩, known⟩ := exists_of_forall₂ h.closedBy hcycle
  have link := known.link
  rw [next_iff_of_isRotated (rotated.trans (isRotated_rotateToLeast _).symm)] at link
  obtain ⟨-, hbefore | ⟨hu, hv⟩⟩ := shape.rel_of_link hframes hmark hnext link
  · exact not_before_of_before shape.nodup_entered known.entered hbefore
  · exact known.looked _ hframe hu.symm (hv ▸ List.mem_cons_self)

theorem Reported.close (dom : Domain succ nodes) {roots : List NodeKey}
    {marks : List (NodeKey × Mark)} {node next : NodeKey} {pending : List NodeKey}
    {outer : List Frame} {found : List (List NodeKey)}
    (shape : Shape succ nodes ⟨roots, marks, ⟨node, next :: pending⟩ :: outer, found⟩)
    (h : Reported succ ⟨roots, marks, ⟨node, next :: pending⟩ :: outer, found⟩ backs)
    (hmark : marks.lookup next = some .inProgress) :
    Reported succ (Search.close next ⟨roots, marks, ⟨node, pending⟩ :: outer, found⟩)
      (backs ++ [(node, next)]) := by
  have looked : Shape succ nodes ⟨roots, marks, ⟨node, pending⟩ :: outer, found⟩ := shape.look
  have hpath : next ∈ path ⟨roots, marks, ⟨node, pending⟩ :: outer, found⟩ :=
    mem_path.2 ((looked.inProgress_iff next).1 hmark)
  have nodup : (next :: pending).Nodup :=
    (dom.nodup_succ node).sublist (shape.pending_suffix _ List.mem_cons_self).sublist
  have hnew : rotateToLeast (pathFrom ⟨roots, marks, ⟨node, pending⟩ :: outer, found⟩ next) ∉
      found :=
    fun hmem => h.not_isRotated shape rfl hmark hmem (isRotated_rotateToLeast _)
  rw [close_of_not_mem hpath hnew]
  constructor
  · rw [← List.concat_eq_append]
    exact h.nodup.concat hnew
  · refine List.rel_append (h.closedBy.imp fun _ _ known => known.advance Advance.look)
      (.cons ?_ .nil)
    exact shape.look.closedBy dom rfl hmark shape.next_mem (List.nodup_cons.1 nodup).1

theorem Reported.move (dom : Domain succ nodes) (shape : Shape succ nodes s)
    (h : Reported succ s backs) (m : Move succ s b s') : Reported succ s' (backs ++ b.toList) := by
  have adv := m.advance
  cases m with
  | close hmark => exact h.close dom shape hmark
  | skip _ | start _ | leave | enter _ | pass _ =>
    rw [Option.toList_none, List.append_nil]
    exact h.advance adv rfl

/-- No edge into a node in progress is looked at twice. -/
theorem nodup_move (shape : Shape succ nodes s) (reported : Reported succ s backs)
    (nodup : backs.Nodup) (m : Move succ s b s') : (backs ++ b.toList).Nodup := by
  cases m with
  | skip _ | start _ | leave | enter _ | pass _ => simpa using nodup
  | @close roots marks node next pending outer found hmark =>
    rw [Option.toList_some, ← List.concat_eq_append]
    refine nodup.concat fun hmem => ?_
    obtain ⟨cycle, known⟩ := exists_of_forall₂ reported.closedBy.flip hmem
    exact known.looked _ List.mem_cons_self rfl List.mem_cons_self

/-! ## What is done leads nowhere back -/

/-- `v` is reached from `u` along `succ`, other than by one of the edges `backs`. -/
def Descends (succ : NodeKey → List NodeKey) (backs : List (NodeKey × NodeKey)) (v u : NodeKey) :
    Prop :=
  v ∈ succ u ∧ (u, v) ∉ backs

/-- Looking at the successor `v` of `u` came to an end: `v` is done, or the edge is one of `backs`. -/
def Settled (s : Search) (backs : List (NodeKey × NodeKey)) (u v : NodeKey) : Prop :=
  s.mark? v = some .done ∨ (u, v) ∈ backs

/-- What the frame `g` below `f` has looked at is settled, but for the node of `f`. -/
def Awaits (succ : NodeKey → List NodeKey) (s : Search) (backs : List (NodeKey × NodeKey))
    (f g : Frame) : Prop :=
  ∀ v ∈ succ g.node, v ∈ g.pending ∨ v = f.node ∨ Settled s backs g.node v

/-- What was looked at is settled, and from what is done, every way along `succ` without `backs` comes
to an end. -/
structure Explored (succ : NodeKey → List NodeKey) (roots : List NodeKey) (s : Search)
    (backs : List (NodeKey × NodeKey)) : Prop where
  tried : ∀ k ∈ roots, k ∈ s.roots ∨ k ∈ s.entered
  current : ∀ f ∈ s.frames.head?, ∀ v ∈ succ f.node, v ∈ f.pending ∨ Settled s backs f.node v
  outer : s.frames.IsChain (Awaits succ s backs)
  acc : ∀ k, s.mark? k = some .done → Acc (Descends succ backs) k

variable {roots₀ : List NodeKey} {backs' : List (NodeKey × NodeKey)}

theorem Settled.advance {u v : NodeKey} (h : Settled s backs u v) (adv : Advance s s')
    (sub : backs ⊆ backs') : Settled s' backs' u v :=
  h.imp (adv.done v) (fun hmem => sub hmem)

theorem Awaits.advance {f f' g : Frame} (h : Awaits succ s backs f g) (adv : Advance s s')
    (sub : backs ⊆ backs') (same : f'.node = f.node) : Awaits succ s' backs' f' g := by
  intro v hv
  rcases h v hv with hpending | habove | hsettled
  · exact .inl hpending
  · exact .inr (.inl (habove.trans same.symm))
  · exact .inr (.inr (hsettled.advance adv sub))

theorem acc_of_subset {k : NodeKey} (h : Acc (Descends succ backs) k) (sub : backs ⊆ backs') :
    Acc (Descends succ backs') k := by
  refine Subrelation.accessible ?_ h
  rintro v u ⟨hv, hnot⟩
  exact ⟨hv, fun hmem => hnot (sub hmem)⟩

theorem Explored.initial (roots : List NodeKey) : Explored succ roots { roots } [] where
  tried _ h := .inl h
  current _ h := absurd h (by simp)
  outer := .nil
  acc k h := absurd h (by simp [mark?])

/-- Looking at a successor of the current node that is settled. -/
theorem Explored.look {roots : List NodeKey} {marks : List (NodeKey × Mark)} {node next : NodeKey}
    {pending : List NodeKey} {outer : List Frame} {found found' : List (List NodeKey)}
    (h : Explored succ roots₀ ⟨roots, marks, ⟨node, next :: pending⟩ :: outer, found⟩ backs)
    (sub : backs ⊆ backs')
    (settled : Settled ⟨roots, marks, ⟨node, pending⟩ :: outer, found'⟩ backs' node next) :
    Explored succ roots₀ ⟨roots, marks, ⟨node, pending⟩ :: outer, found'⟩ backs' where
  tried := h.tried
  current := by
    intro f hf v hv
    obtain rfl := Option.some.inj hf
    rcases h.current _ rfl v hv with hpending | hsettled
    · rcases List.mem_cons.1 hpending with rfl | hpending
      · exact .inr settled
      · exact .inl hpending
    · exact .inr (hsettled.advance Advance.look sub)
  outer := by
    have outer := List.isChain_cons.1 h.outer
    refine List.isChain_cons.2 ⟨?_, outer.2.imp fun _ _ ha => ha.advance Advance.look sub rfl⟩
    exact fun g hg => (outer.1 g hg).advance Advance.look sub rfl
  acc k hk := acc_of_subset (h.acc k hk) sub

/-- Entering a new node, on top of a frame that has looked at it and awaits it now. -/
theorem Explored.enter {roots : List NodeKey} {marks : List (NodeKey × Mark)}
    {node next : NodeKey} {pending : List NodeKey} {outer : List Frame}
    {found : List (List NodeKey)}
    (h : Explored succ roots₀ ⟨roots, marks, ⟨node, next :: pending⟩ :: outer, found⟩ backs)
    (hnew : marks.lookup next = none) :
    Explored succ roots₀ ⟨roots, (next, .inProgress) :: marks,
      ⟨next, succ next⟩ :: ⟨node, pending⟩ :: outer, found⟩ backs where
  tried k hk := (h.tried k hk).imp_right (List.mem_cons_of_mem next)
  current := by
    intro f hf v hv
    obtain rfl := Option.some.inj hf
    exact .inl hv
  outer := by
    have adv : Advance ⟨roots, marks, ⟨node, next :: pending⟩ :: outer, found⟩
        ⟨roots, (next, .inProgress) :: marks, ⟨next, succ next⟩ :: ⟨node, pending⟩ :: outer, found⟩ :=
      (Move.enter hnew).advance
    have outer := List.isChain_cons.1 h.outer
    refine .cons_cons ?_ (List.isChain_cons.2 ⟨fun g hg => ?_, outer.2.imp fun _ _ ha => ?_⟩)
    · intro v hv
      rcases h.current _ rfl v hv with hpending | hsettled
      · rcases List.mem_cons.1 hpending with rfl | hpending
        · exact .inr (.inl rfl)
        · exact .inl hpending
      · exact .inr (.inr (hsettled.advance adv (List.Subset.refl _)))
    · exact (outer.1 g hg).advance adv (List.Subset.refl _) rfl
    · exact ha.advance adv (List.Subset.refl _) rfl
  acc := by
    intro k hk
    rw [mark?_cons] at hk
    split at hk
    · exact absurd hk (by simp)
    · exact h.acc k hk

/-- Leaving the current node. All its successors are settled, so every way from it comes to an end. -/
theorem Explored.leave {roots : List NodeKey} {marks : List (NodeKey × Mark)} {node : NodeKey}
    {outer : List Frame} {found : List (List NodeKey)}
    (shape : Shape succ nodes ⟨roots, marks, ⟨node, []⟩ :: outer, found⟩)
    (h : Explored succ roots₀ ⟨roots, marks, ⟨node, []⟩ :: outer, found⟩ backs) :
    Explored succ roots₀ (finish node ⟨roots, marks, outer, found⟩) backs where
  tried := by
    rw [entered_finish]
    exact h.tried
  current := by
    intro g hg v hv
    rcases (List.isChain_cons.1 h.outer).1 g hg v hv with hpending | hnode | hsettled
    · exact .inl hpending
    · have hmark : mark? ⟨roots, marks, outer, found⟩ node = some .inProgress :=
        (shape.inProgress_iff node).2 List.mem_cons_self
      refine .inr (.inl ?_)
      rw [show v = node from hnode, mark?_finish, hmark]
      simp
    · exact .inr (hsettled.advance Advance.leave (List.Subset.refl _))
  outer := (List.isChain_cons.1 h.outer).2.imp fun _ _ ha =>
    ha.advance Advance.leave (List.Subset.refl _) rfl
  acc := by
    intro k hk
    by_cases hnode : k = node
    · refine Acc.intro k ?_
      rintro v ⟨hv, hnot⟩
      rw [hnode] at hv hnot
      rcases h.current _ rfl v hv with hpending | hdone | hback
      · exact absurd hpending List.not_mem_nil
      · exact h.acc v hdone
      · exact absurd hback hnot
    · rw [mark?_finish] at hk
      simp only [if_neg hnode, Option.map_id'] at hk
      exact h.acc k hk

theorem Explored.move (shape : Shape succ nodes s) (h : Explored succ roots₀ s backs)
    (m : Move succ s b s') : Explored succ roots₀ s' (backs ++ b.toList) := by
  cases m with
  | @skip root roots marks found m hmark =>
    rw [Option.toList_none, List.append_nil]
    refine { h with tried := fun k hk => ?_ }
    rcases h.tried k hk with hroot | hentered
    · rcases List.mem_cons.1 hroot with rfl | hroot
      · exact .inr (mem_of_lookup hmark)
      · exact .inl hroot
    · exact .inr hentered
  | @start root roots marks found hnew =>
    rw [Option.toList_none, List.append_nil]
    refine ⟨fun k hk => ?_, ?_, .singleton _, fun k hk => ?_⟩
    · rcases h.tried k hk with hroot | hentered
      · rcases List.mem_cons.1 hroot with rfl | hroot
        · exact .inr List.mem_cons_self
        · exact .inl hroot
      · exact .inr (List.mem_cons_of_mem root hentered)
    · intro f hf v hv
      obtain rfl := Option.some.inj hf
      exact .inl hv
    · rw [mark?_cons] at hk
      split at hk
      · exact absurd hk (by simp)
      · exact h.acc k hk
  | leave =>
    rw [Option.toList_none, List.append_nil]
    exact h.leave shape
  | enter hnew =>
    rw [Option.toList_none, List.append_nil]
    exact h.enter hnew
  | @close roots marks node next pending outer found hmark =>
    obtain ⟨found', heq⟩ := close_eq (s := ⟨roots, marks, ⟨node, pending⟩ :: outer, found⟩) next
    rw [heq]
    exact h.look (List.subset_append_left _ _)
      (.inr (List.mem_append_right _ List.mem_cons_self))
  | pass hmark =>
    rw [Option.toList_none, List.append_nil]
    exact h.look (List.Subset.refl _) (.inl hmark)

/-! ## What is entered -/

/-- A root, or what a root leads to. -/
def Reached (succ : NodeKey → List NodeKey) (roots : List NodeKey) (k : NodeKey) : Prop :=
  ∃ root ∈ roots, Relation.ReflTransGen (fun u v => v ∈ succ u) root k

/-- Each successor of a node that was entered has been entered too, or is still to be looked at. -/
def Covers (succ : NodeKey → List NodeKey) (s : Search) : Prop :=
  ∀ k ∈ s.entered, ∀ v ∈ succ k, v ∈ s.entered ∨ ∃ f ∈ s.frames, f.node = k ∧ v ∈ f.pending

/-- Looking at the next successor of the current node, which has been entered by then. -/
theorem Covers.look {roots : List NodeKey} {marks : List (NodeKey × Mark)}
    {node next : NodeKey} {pending : List NodeKey} {outer : List Frame}
    {found : List (List NodeKey)} (marks' : List (NodeKey × Mark)) (inner : List Frame)
    (h : Covers succ ⟨roots, marks, ⟨node, next :: pending⟩ :: outer, found⟩)
    (entered : marks.map Prod.fst ⊆ marks'.map Prod.fst) (hnext : next ∈ marks'.map Prod.fst)
    {k : NodeKey} (hk : k ∈ marks.map Prod.fst) {v : NodeKey} (hv : v ∈ succ k) :
    v ∈ marks'.map Prod.fst ∨
      ∃ f ∈ inner ++ ⟨node, pending⟩ :: outer, f.node = k ∧ v ∈ f.pending := by
  rcases h k hk v hv with hv | ⟨f, hf, node_eq, hv⟩
  · exact .inl (entered hv)
  · rcases List.mem_cons.1 hf with rfl | hf
    · rcases List.mem_cons.1 hv with rfl | hv
      · exact .inl hnext
      · exact .inr ⟨_, List.mem_append_right _ List.mem_cons_self, node_eq, hv⟩
    · exact .inr ⟨f, List.mem_append_right _ (List.mem_cons_of_mem _ hf), node_eq, hv⟩

theorem Covers.move (h : Covers succ s) (m : Move succ s b s') : Covers succ s' := by
  cases m with
  | skip _ => exact h
  | @start root roots marks found hnew =>
    intro k hk v hv
    rcases List.mem_cons.1 hk with rfl | hk
    · exact .inr ⟨_, List.mem_cons_self, rfl, hv⟩
    · rcases h k hk v hv with hv | ⟨f, hf, -⟩
      · exact .inl (List.mem_cons_of_mem root hv)
      · exact absurd hf List.not_mem_nil
  | @leave roots marks node outer found =>
    unfold Covers
    rw [entered_finish]
    intro k hk v hv
    rcases h k hk v hv with hv | ⟨f, hf, node_eq, hv⟩
    · exact .inl hv
    · rcases List.mem_cons.1 hf with rfl | hf
      · exact absurd hv List.not_mem_nil
      · exact .inr ⟨f, hf, node_eq, hv⟩
  | @enter roots marks node next pending outer found hnew =>
    intro k hk v hv
    rcases List.mem_cons.1 hk with rfl | hk
    · exact .inr ⟨_, List.mem_cons_self, rfl, hv⟩
    · exact h.look ((next, .inProgress) :: marks) [⟨next, succ next⟩]
        (List.subset_cons_self next _) List.mem_cons_self hk hv
  | @close roots marks node next pending outer found hmark =>
    obtain ⟨found', heq⟩ := close_eq (s := ⟨roots, marks, ⟨node, pending⟩ :: outer, found⟩) next
    rw [heq]
    intro k hk v hv
    exact h.look marks [] (List.Subset.refl _) (mem_of_lookup hmark) hk hv
  | @pass roots marks node next pending outer found hmark =>
    intro k hk v hv
    exact h.look marks [] (List.Subset.refl _) (mem_of_lookup hmark) hk hv

/-! ## The finished search -/

/-- What holds of a search all the way: its shape, what it has listed and what it has entered. -/
structure Sound (succ : NodeKey → List NodeKey) (nodes roots : List NodeKey) (s : Search)
    (backs : List (NodeKey × NodeKey)) : Prop where
  shape : Shape succ nodes s
  reported : Reported succ s backs
  explored : Explored succ roots s backs
  covers : Covers succ s
  nodup : backs.Nodup

theorem Sound.run (dom : Domain succ nodes) (sub : ∀ k ∈ roots₀, k ∈ nodes) (n : Nat) :
    Sound succ nodes roots₀ (run succ n { roots := roots₀ })
      (backEdges succ n { roots := roots₀ }) := by
  have start : Sound succ nodes roots₀ { roots := roots₀ } [] :=
    ⟨.initial sub, ⟨List.nodup_nil, .nil⟩, .initial roots₀,
      fun _ h => absurd h List.not_mem_nil, List.nodup_nil⟩
  refine run_induction (P := Sound succ nodes roots₀) ?_ n _ [] start
  intro s b s' backs m h
  exact ⟨h.shape.move dom m, h.reported.move dom h.shape m, h.explored.move h.shape m,
    h.covers.move m, nodup_move h.shape h.reported h.nodup m⟩

/-- A finished search has entered all that the roots lead to. -/
theorem Sound.mem_entered (h : Sound succ nodes roots₀ s backs) (finished : s.isFinished = true)
    {k : NodeKey} (hk : Reached succ roots₀ k) : k ∈ s.entered := by
  obtain ⟨no_frames, no_roots⟩ := isFinished_iff.1 finished
  obtain ⟨root, hroot, path⟩ := hk
  induction path with
  | refl =>
    refine (h.explored.tried root hroot).resolve_left ?_
    rw [no_roots]
    exact List.not_mem_nil
  | tail _ hv ih =>
    refine (h.covers _ ih _ hv).resolve_right ?_
    rintro ⟨f, hf, -⟩
    rw [no_frames] at hf
    exact List.not_mem_nil hf

/-- A finished search is done with all that it has entered. -/
theorem Sound.mark?_eq_done (h : Sound succ nodes roots₀ s backs) (finished : s.isFinished = true)
    {k : NodeKey} (hk : Reached succ roots₀ k) : s.mark? k = some .done := by
  have entered := h.mem_entered finished hk
  cases hmark : s.mark? k with
  | none => exact absurd entered (mark?_eq_none_iff.1 hmark)
  | some m =>
    cases m with
    | inProgress =>
      have hpath := (h.shape.inProgress_iff k).1 hmark
      rw [(isFinished_iff.1 finished).1] at hpath
      exact absurd hpath List.not_mem_nil
    | done => rfl

/-- The cycles that a search lists are different cycles along `succ`. Each can be given one of its
links, namely the edge that closed it, so that nothing from the roots on leads back to itself once
these edges are left out. -/
theorem findCycles_spec {roots : List NodeKey} (dom : Domain succ nodes)
    (sub : ∀ k ∈ roots, k ∈ nodes) :
    ∃ backs : List (NodeKey × NodeKey),
      (findCycles succ roots nodes).Nodup ∧
      List.Forall₂ (fun cycle b => cycle.Nodup ∧ (∀ u v, Next cycle u v → v ∈ succ u) ∧
        Next cycle b.1 b.2) (findCycles succ roots nodes) backs ∧
      ∀ k ∈ roots, Acc (Descends succ backs) k := by
  have sound := Sound.run dom sub (bound succ roots nodes)
  have finished := isFinished_run dom (.initial sub) (remaining_initial roots).le
  refine ⟨_, sound.reported.nodup,
    sound.reported.closedBy.imp fun _ _ c => ⟨c.nodup, c.edges, c.link⟩, fun k hk => ?_⟩
  exact sound.explored.acc k (sound.mark?_eq_done finished ⟨k, hk, .refl⟩)

end Search

end LayerGraph
