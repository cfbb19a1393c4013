import LayerGraph.Proofs.SearchCycles

/-!
# The first cycle of a search without dead ends

Where every node has a successor, a search does not leave any node before it has found a cycle. It
goes from each node to its first successor until it comes back to one that it has passed. So every
link of the first cycle leads from a node to its first successor, and whoever follows first
successors from a node of this cycle stays in it.

Main statements:
1. `Descent.move`: until a cycle is found, the search only enters first successors.
2. `exists_head?_findCycles`: there is a first cycle, and it consists of first links.
-/

namespace LayerGraph

open Places

namespace Search

variable {succ : NodeKey → List NodeKey} {nodes : List NodeKey} {s s' : Search}
  {b : Option (NodeKey × NodeKey)}

/-- Every link of the cycle leads from a node to its first successor. -/
def FirstLinks (succ : NodeKey → List NodeKey) (cycle : List NodeKey) : Prop :=
  ∀ u v, Next cycle u v → (succ u).head? = some v

/-- A search on its way to the first cycle: no node has been left, none of the current node's
successors has been looked at, and each other node in progress was left for its first successor. -/
structure Descent (succ : NodeKey → List NodeKey) (s : Search) : Prop where
  found_eq : s.found = []
  entered_eq : s.entered = s.frames.map Frame.node
  current : ∀ f ∈ s.frames.head?, f.pending = succ f.node
  chain : s.frames.IsChain fun f g => (succ g.node).head? = some f.node
  busy : s.isFinished = false

/-- A cycle of first links is the first one found. -/
def FoundFirst (succ : NodeKey → List NodeKey) (s : Search) : Prop :=
  ∃ cycle, s.found.head? = some cycle ∧ cycle ≠ [] ∧ FirstLinks succ cycle

theorem Descent.initial {roots : List NodeKey} (hroots : roots ≠ []) : Descent succ { roots } where
  found_eq := rfl
  entered_eq := rfl
  current _ h := absurd h (by simp)
  chain := .nil
  busy := by
    rw [isFinished, List.isEmpty_eq_false_iff.2 hroots, Bool.and_false]

/-- Before a cycle is found, all marked nodes are in progress. -/
theorem Descent.lookup_ne_done (h : Descent succ s) (shape : Shape succ nodes s) (k : NodeKey) :
    s.mark? k ≠ some .done := by
  intro hdone
  by_cases hk : k ∈ s.frames.map Frame.node
  · have hmark := (shape.inProgress_iff k).2 hk
    rw [hdone] at hmark
    exact absurd hmark (by simp)
  · rw [← h.entered_eq] at hk
    rw [mark?_eq_none_iff.2 hk] at hdone
    exact absurd hdone (by simp)

/-- The first edge into a node in progress closes a cycle of first links. -/
theorem Descent.foundFirst_close {roots : List NodeKey} {marks : List (NodeKey × Mark)}
    {node next : NodeKey} {pending : List NodeKey} {outer : List Frame}
    {found : List (List NodeKey)}
    (h : Descent succ ⟨roots, marks, ⟨node, next :: pending⟩ :: outer, found⟩)
    (shape : Shape succ nodes ⟨roots, marks, ⟨node, next :: pending⟩ :: outer, found⟩)
    (hmark : marks.lookup next = some .inProgress) :
    FoundFirst succ (Search.close next ⟨roots, marks, ⟨node, pending⟩ :: outer, found⟩) := by
  have found_eq : found = [] := h.found_eq
  have first : next :: pending = succ node := h.current _ rfl
  have hpath : next ∈ path ⟨roots, marks, ⟨node, pending⟩ :: outer, found⟩ :=
    mem_path.2 ((shape.inProgress_iff next).1 hmark)
  have chain : (path ⟨roots, marks, ⟨node, pending⟩ :: outer, found⟩).IsChain
      fun u v => (succ u).head? = some v := by
    rw [path, List.isChain_reverse]
    exact (List.isChain_map _).2 (List.isChain_cons.2 (List.isChain_cons.1 h.chain))
  have closes : (succ node).head? = some next := by
    rw [← first]
    rfl
  subst found_eq
  have rotated := isRotated_rotateToLeast (pathFrom ⟨roots, marks, ⟨node, pending⟩ :: outer, []⟩ next)
  rw [close_of_not_mem hpath List.not_mem_nil]
  refine ⟨_, rfl, ?_, fun u v link => rel_of_closed rfl hpath chain closes link⟩
  exact List.ne_nil_of_mem (rotated.mem_iff.2 (List.mem_of_head? (head?_pathFrom hpath)))

theorem Descent.move (stalled : ∀ k ∈ nodes, succ k ≠ []) (h : Descent succ s)
    (shape : Shape succ nodes s) (m : Move succ s b s') : Descent succ s' ∨ FoundFirst succ s' := by
  cases m with
  | @skip root roots marks found m hmark =>
    have hnone : mark? ⟨root :: roots, marks, [], found⟩ root = none := by
      rw [mark?_eq_none_iff, h.entered_eq]
      exact List.not_mem_nil
    exact absurd (hmark.symm.trans hnone) (by simp)
  | @start root roots marks found hnew =>
    have entered_eq : marks.map Prod.fst = [] := h.entered_eq
    refine .inl ⟨h.found_eq, congrArg (root :: ·) entered_eq, ?_, .singleton _, rfl⟩
    intro f hf
    obtain rfl := Option.some.inj hf
    rfl
  | @leave roots marks node outer found =>
    -- a node is left once its successors have been looked at, but it had some and none was
    have hnode := shape.node_mem (List.mem_cons_self)
    exact absurd (h.current _ rfl).symm (stalled node hnode)
  | @enter roots marks node next pending outer found hnew =>
    have first : next :: pending = succ node := h.current _ rfl
    refine .inl ⟨h.found_eq, congrArg (next :: ·) h.entered_eq, ?_, ?_, rfl⟩
    · intro f hf
      obtain rfl := Option.some.inj hf
      rfl
    · refine .cons_cons ?_ (List.isChain_cons.2 (List.isChain_cons.1 h.chain))
      rw [← first]
      rfl
  | close hmark => exact .inr (h.foundFirst_close shape hmark)
  | @pass _ _ _ next _ _ _ hmark => exact absurd hmark (h.lookup_ne_done shape next)

/-- A cycle that is found stays in its place. -/
theorem Move.found_prefix (m : Move succ s b s') : s.found <+: s'.found := by
  cases m with
  | skip _ | start _ | leave | enter _ | pass _ => exact List.prefix_refl _
  | @close roots marks node next pending outer found hmark =>
    rw [Search.close]
    split
    · dsimp only
      split
      · exact List.prefix_refl _
      · exact List.prefix_append _ _
    · exact List.prefix_refl _

theorem FoundFirst.move (h : FoundFirst succ s) (m : Move succ s b s') : FoundFirst succ s' := by
  obtain ⟨cycle, hhead, first⟩ := h
  obtain ⟨more, hmore⟩ := m.found_prefix
  refine ⟨cycle, ?_, first⟩
  rw [← hmore, List.head?_append, hhead]
  rfl

/-- A search without dead ends finds a cycle, and the first one consists of first links. -/
theorem exists_head?_findCycles {roots : List NodeKey} (dom : Domain succ nodes)
    (sub : ∀ k ∈ roots, k ∈ nodes) (hroots : roots ≠ []) (stalled : ∀ k ∈ nodes, succ k ≠ []) :
    ∃ cycle, (findCycles succ roots nodes).head? = some cycle ∧ cycle ≠ [] ∧
      FirstLinks succ cycle := by
  have keeps : ∀ s b s' (_ : List (NodeKey × NodeKey)), Move succ s b s' →
      Shape succ nodes s ∧ (Descent succ s ∨ FoundFirst succ s) →
      Shape succ nodes s' ∧ (Descent succ s' ∨ FoundFirst succ s') := by
    rintro s b s' _ m ⟨shape, descent | found⟩
    · exact ⟨shape.move dom m, descent.move stalled shape m⟩
    · exact ⟨shape.move dom m, .inr (found.move m)⟩
  obtain ⟨-, descent | found⟩ := run_induction
    (P := fun s _ => Shape succ nodes s ∧ (Descent succ s ∨ FoundFirst succ s)) keeps
    (bound succ roots nodes) { roots } [] ⟨.initial sub, .inl (.initial hroots)⟩
  · have finished := isFinished_run dom (.initial sub) (remaining_initial roots).le
    rw [descent.busy] at finished
    exact absurd finished (by simp)
  · exact found

end Search

end LayerGraph
