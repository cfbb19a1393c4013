import LayerGraph.Graph.Cycle
import Mathlib.Algebra.GroupWithZero.Nat
import Mathlib.Data.List.Chain
import Mathlib.Data.List.Nodup
import Mathlib.Data.List.Perm.Subperm

/-!
# Runs of the depth-first search

`Move` lists once what a step of the search can do, with the edge that it finds to close a cycle if
it finds one; all invariants of the search go by its cases. `Shape` is the first of them: the nodes in
progress are the path that the search is on, and each node is entered at most once.

Main statements:
1. `move_step`: a step of a search that is not finished is a move.
2. `Shape.move`: a move keeps the shape.
3. `isFinished_run`: the search ends within its bound.
4. `findCycles_of_subset`: allowing it more steps makes no difference.
-/

namespace LayerGraph.Search

/-! ## Moves -/

/-- The nodes entered so far, the one entered last in front. -/
def entered (s : Search) : List NodeKey :=
  s.marks.map Prod.fst

/-- The edge into a node in progress that the next step looks at, if it looks at one. -/
def backEdge? (s : Search) : Option (NodeKey × NodeKey) :=
  match s.frames with
  | ⟨node, next :: _⟩ :: _ =>
    if s.mark? next = some .inProgress then some (node, next) else none
  | _ => none

/-- The edges into nodes in progress that at most `n` steps look at, in order. -/
def backEdges (succ : NodeKey → List NodeKey) : Nat → Search → List (NodeKey × NodeKey)
  | 0, _ => []
  | n + 1, s => if s.isFinished then [] else s.backEdge?.toList ++ backEdges succ n (s.step succ)

/-- What a step does: `Move succ s back s'` leads from `s` to `s'`, and `back` is the edge into a
node in progress that it looks at.

* `skip`, `start`: the next root has been entered before, or is entered now.
* `leave`: the current node has no successor left.
* `enter`, `close`, `pass`: the next successor is new, in progress or done. -/
inductive Move (succ : NodeKey → List NodeKey) :
    Search → Option (NodeKey × NodeKey) → Search → Prop
  | skip {root : NodeKey} {roots : List NodeKey} {marks : List (NodeKey × Mark)}
      {found : List (List NodeKey)} {m : Mark} : marks.lookup root = some m →
      Move succ ⟨root :: roots, marks, [], found⟩ none ⟨roots, marks, [], found⟩
  | start {root : NodeKey} {roots : List NodeKey} {marks : List (NodeKey × Mark)}
      {found : List (List NodeKey)} : marks.lookup root = none →
      Move succ ⟨root :: roots, marks, [], found⟩ none
        ⟨roots, (root, .inProgress) :: marks, [⟨root, succ root⟩], found⟩
  | leave {roots : List NodeKey} {marks : List (NodeKey × Mark)} {node : NodeKey}
      {outer : List Frame} {found : List (List NodeKey)} :
      Move succ ⟨roots, marks, ⟨node, []⟩ :: outer, found⟩ none
        (finish node ⟨roots, marks, outer, found⟩)
  | enter {roots : List NodeKey} {marks : List (NodeKey × Mark)} {node next : NodeKey}
      {pending : List NodeKey} {outer : List Frame} {found : List (List NodeKey)} :
      marks.lookup next = none →
      Move succ ⟨roots, marks, ⟨node, next :: pending⟩ :: outer, found⟩ none
        ⟨roots, (next, .inProgress) :: marks, ⟨next, succ next⟩ :: ⟨node, pending⟩ :: outer, found⟩
  | close {roots : List NodeKey} {marks : List (NodeKey × Mark)} {node next : NodeKey}
      {pending : List NodeKey} {outer : List Frame} {found : List (List NodeKey)} :
      marks.lookup next = some .inProgress →
      Move succ ⟨roots, marks, ⟨node, next :: pending⟩ :: outer, found⟩ (some (node, next))
        (close next ⟨roots, marks, ⟨node, pending⟩ :: outer, found⟩)
  | pass {roots : List NodeKey} {marks : List (NodeKey × Mark)} {node next : NodeKey}
      {pending : List NodeKey} {outer : List Frame} {found : List (List NodeKey)} :
      marks.lookup next = some .done →
      Move succ ⟨roots, marks, ⟨node, next :: pending⟩ :: outer, found⟩ none
        ⟨roots, marks, ⟨node, pending⟩ :: outer, found⟩

variable {succ : NodeKey → List NodeKey} {s s' : Search} {b : Option (NodeKey × NodeKey)}

theorem isFinished_iff : s.isFinished = true ↔ s.frames = [] ∧ s.roots = [] := by
  rw [isFinished, Bool.and_eq_true, List.isEmpty_iff, List.isEmpty_iff]

/-- A step of a search that is not finished is a move. -/
theorem move_step (unfinished : s.isFinished = false) :
    Move succ s s.backEdge? (s.step succ) := by
  obtain ⟨roots, marks, frames, found⟩ := s
  rcases frames with _ | ⟨⟨node, _ | ⟨next, pending⟩⟩, outer⟩
  · rcases roots with _ | ⟨root, roots⟩
    · exact absurd unfinished (by simp [isFinished])
    · cases hmark : marks.lookup root with
      | none =>
        have hstep : step succ ⟨root :: roots, marks, [], found⟩ =
            ⟨roots, (root, .inProgress) :: marks, [⟨root, succ root⟩], found⟩ := by
          simp [step, mark?, hmark, enter]
        rw [hstep]
        exact .start hmark
      | some m =>
        have hstep : step succ ⟨root :: roots, marks, [], found⟩ = ⟨roots, marks, [], found⟩ := by
          simp [step, mark?, hmark]
        rw [hstep]
        exact .skip hmark
  · exact .leave
  · cases hmark : marks.lookup next with
    | none =>
      have hback : backEdge? ⟨roots, marks, ⟨node, next :: pending⟩ :: outer, found⟩ = none := by
        simp [backEdge?, mark?, hmark]
      have hstep : step succ ⟨roots, marks, ⟨node, next :: pending⟩ :: outer, found⟩ =
          ⟨roots, (next, .inProgress) :: marks, ⟨next, succ next⟩ :: ⟨node, pending⟩ :: outer,
            found⟩ := by
        simp [step, mark?, hmark, enter]
      rw [hback, hstep]
      exact .enter hmark
    | some m =>
      cases m with
      | inProgress =>
        have hback : backEdge? ⟨roots, marks, ⟨node, next :: pending⟩ :: outer, found⟩ =
            some (node, next) := by
          simp [backEdge?, mark?, hmark]
        have hstep : step succ ⟨roots, marks, ⟨node, next :: pending⟩ :: outer, found⟩ =
            close next ⟨roots, marks, ⟨node, pending⟩ :: outer, found⟩ := by
          simp [step, mark?, hmark]
        rw [hback, hstep]
        exact .close hmark
      | done =>
        have hback : backEdge? ⟨roots, marks, ⟨node, next :: pending⟩ :: outer, found⟩ = none := by
          simp [backEdge?, mark?, hmark]
        have hstep : step succ ⟨roots, marks, ⟨node, next :: pending⟩ :: outer, found⟩ =
            ⟨roots, marks, ⟨node, pending⟩ :: outer, found⟩ := by
          simp [step, mark?, hmark]
        rw [hback, hstep]
        exact .pass hmark

/-- What every move keeps holds after a run. `P` may speak of the edges into nodes in progress that
have been looked at so far. -/
theorem run_induction {P : Search → List (NodeKey × NodeKey) → Prop}
    (keeps : ∀ s b s' backs, Move succ s b s' → P s backs → P s' (backs ++ b.toList)) (n : Nat)
    (s : Search) (backs : List (NodeKey × NodeKey)) (h : P s backs) :
    P (run succ n s) (backs ++ backEdges succ n s) := by
  induction n generalizing s backs with
  | zero => simpa [run, backEdges] using h
  | succ n ih =>
    rw [run, backEdges]
    cases hfin : s.isFinished with
    | true => simpa using h
    | false =>
      have after := ih _ _ (keeps _ _ _ _ (move_step hfin) h)
      simpa using after

/-! ## Marks -/

theorem mark?_eq_none_iff {k : NodeKey} : s.mark? k = none ↔ k ∉ s.entered := by
  rw [mark?, List.lookup_eq_none_iff, entered, List.mem_map]
  simp only [bne_iff_ne, not_exists, not_and]
  exact ⟨fun h p hp heq => h p hp heq.symm, fun h p hp heq => h p hp heq.symm⟩

theorem mem_of_lookup {marks : List (NodeKey × Mark)} {k : NodeKey} {m : Mark}
    (h : marks.lookup k = some m) : k ∈ marks.map Prod.fst := by
  by_contra hnot
  have hnone := mark?_eq_none_iff (s := ⟨[], marks, [], []⟩).2 hnot
  exact absurd (h.symm.trans hnone) (by simp)

@[simp] theorem entered_finish (k : NodeKey) : (s.finish k).entered = s.entered := by
  simp [finish, entered]

@[simp] theorem frames_finish (k : NodeKey) : (s.finish k).frames = s.frames := rfl

@[simp] theorem roots_finish (k : NodeKey) : (s.finish k).roots = s.roots := rfl

/-- Leaving a node marks it as done and no other. -/
theorem mark?_finish (k j : NodeKey) :
    (s.finish k).mark? j = (s.mark? j).map fun m => if j = k then .done else m := by
  rw [finish, mark?, mark?]
  induction s.marks with
  | nil => rfl
  | cons p rest ih =>
    rw [List.map_cons, List.lookup_cons, List.lookup_cons, ih]
    by_cases h : j = p.1
    · rw [beq_iff_eq.2 h, h]
      rfl
    · rw [beq_eq_false_iff_ne.2 h]

theorem mark?_cons (roots : List NodeKey) (marks : List (NodeKey × Mark)) (frames : List Frame)
    (found : List (List NodeKey)) (k j : NodeKey) (m : Mark) :
    mark? ⟨roots, (k, m) :: marks, frames, found⟩ j = if j = k then some m else marks.lookup j := by
  rw [mark?, List.lookup_cons]
  by_cases h : j = k
  · rw [beq_iff_eq.2 h, if_pos h]
  · rw [beq_eq_false_iff_ne.2 h, if_neg h]

/-- Closing a cycle changes nothing but the list of cycles. -/
theorem close_eq (k : NodeKey) : ∃ found, s.close k = { s with found } := by
  rw [close]
  split
  · dsimp only
    split
    · exact ⟨s.found, rfl⟩
    · exact ⟨_, rfl⟩
  · exact ⟨s.found, rfl⟩

/-! ## The shape of a search -/

/-- What a search relies on: `succ` lists nothing twice and no node among its own successors, and it
does not lead out of `nodes`. -/
structure Domain (succ : NodeKey → List NodeKey) (nodes : List NodeKey) : Prop where
  nodup_nodes : nodes.Nodup
  closed : ∀ k ∈ nodes, ∀ v ∈ succ k, v ∈ nodes
  nodup_succ : ∀ k, (succ k).Nodup
  irrefl : ∀ k, k ∉ succ k

/-- The nodes in progress are a path along `succ`, in the order in which they were entered, and no
node is entered twice. -/
structure Shape (succ : NodeKey → List NodeKey) (nodes : List NodeKey) (s : Search) : Prop where
  nodup_entered : s.entered.Nodup
  entered_mem : ∀ k ∈ s.entered, k ∈ nodes
  roots_mem : ∀ k ∈ s.roots, k ∈ nodes
  path_sublist : (s.frames.map Frame.node).Sublist s.entered
  inProgress_iff : ∀ k, s.mark? k = some .inProgress ↔ k ∈ s.frames.map Frame.node
  pending_suffix : ∀ f ∈ s.frames, f.pending <:+ succ f.node
  chain : s.frames.IsChain fun f g => f.node ∈ succ g.node

variable {nodes : List NodeKey}

theorem Shape.nodup_path (h : Shape succ nodes s) : (s.frames.map Frame.node).Nodup :=
  h.nodup_entered.sublist h.path_sublist

theorem Shape.initial {roots : List NodeKey} (sub : ∀ k ∈ roots, k ∈ nodes) :
    Shape succ nodes { roots } where
  nodup_entered := List.nodup_nil
  entered_mem _ h := absurd h List.not_mem_nil
  roots_mem := sub
  path_sublist := List.nil_sublist _
  inProgress_iff _ := by simp [mark?]
  pending_suffix _ h := absurd h List.not_mem_nil
  chain := .nil

/-- Looking at the next successor of the current node, whatever comes of it. -/
theorem Shape.look {roots : List NodeKey} {marks : List (NodeKey × Mark)} {node next : NodeKey}
    {pending : List NodeKey} {outer : List Frame} {found found' : List (List NodeKey)}
    (h : Shape succ nodes ⟨roots, marks, ⟨node, next :: pending⟩ :: outer, found⟩) :
    Shape succ nodes ⟨roots, marks, ⟨node, pending⟩ :: outer, found'⟩ where
  nodup_entered := h.nodup_entered
  entered_mem := h.entered_mem
  roots_mem := h.roots_mem
  path_sublist := h.path_sublist
  inProgress_iff := h.inProgress_iff
  pending_suffix := by
    intro f hf
    rcases List.mem_cons.1 hf with rfl | hf
    · exact (List.suffix_cons next pending).trans (h.pending_suffix _ List.mem_cons_self)
    · exact h.pending_suffix f (List.mem_cons_of_mem _ hf)
  chain := by
    have chain := h.chain
    rw [List.isChain_cons] at chain ⊢
    exact chain

/-- Entering a new node that the current one leads to. -/
theorem Shape.enter (h : Shape succ nodes s) {k : NodeKey} (hnew : s.mark? k = none)
    (hk : k ∈ nodes) (hlink : ∀ f ∈ s.frames.head?, k ∈ succ f.node) :
    Shape succ nodes (s.enter succ k) where
  nodup_entered := List.nodup_cons.2 ⟨mark?_eq_none_iff.1 hnew, h.nodup_entered⟩
  entered_mem := by
    intro j hj
    rcases List.mem_cons.1 hj with rfl | hj
    · exact hk
    · exact h.entered_mem j hj
  roots_mem := h.roots_mem
  path_sublist := h.path_sublist.cons_cons k
  inProgress_iff := by
    intro j
    rw [Search.enter, mark?_cons, List.map_cons, List.mem_cons, ← h.inProgress_iff j]
    -- the new mark hides an older one of the same node, but there is none
    by_cases hj : j = k
    · simp [hj]
    · rw [if_neg hj]
      simp [hj, mark?]
  pending_suffix := by
    intro f hf
    rcases List.mem_cons.1 hf with rfl | hf
    · exact List.suffix_refl _
    · exact h.pending_suffix f hf
  chain := List.isChain_cons.2 ⟨hlink, h.chain⟩

/-- Leaving the current node. -/
theorem Shape.leave {roots : List NodeKey} {marks : List (NodeKey × Mark)} {node : NodeKey}
    {outer : List Frame} {found : List (List NodeKey)}
    (h : Shape succ nodes ⟨roots, marks, ⟨node, []⟩ :: outer, found⟩) :
    Shape succ nodes (finish node ⟨roots, marks, outer, found⟩) where
  nodup_entered := (entered_finish node).symm ▸ h.nodup_entered
  entered_mem := (entered_finish node).symm ▸ h.entered_mem
  roots_mem := h.roots_mem
  path_sublist := (entered_finish node).symm ▸ (List.sublist_cons_self _ _).trans h.path_sublist
  inProgress_iff := by
    intro k
    have marked := h.inProgress_iff k
    rw [mark?_finish]
    have distinct : node ∉ outer.map Frame.node := (List.nodup_cons.1 h.nodup_path).1
    by_cases hk : k = node
    · subst hk
      simp [distinct]
    · simpa [hk, mark?] using marked
  pending_suffix f hf := h.pending_suffix f (List.mem_cons_of_mem _ hf)
  chain := (List.isChain_cons.1 h.chain).2

/-- The next successor of the current node is a successor. -/
theorem Shape.next_mem {roots : List NodeKey} {marks : List (NodeKey × Mark)} {node next : NodeKey}
    {pending : List NodeKey} {outer : List Frame} {found : List (List NodeKey)}
    (h : Shape succ nodes ⟨roots, marks, ⟨node, next :: pending⟩ :: outer, found⟩) :
    next ∈ succ node :=
  (h.pending_suffix _ List.mem_cons_self).subset List.mem_cons_self

theorem Shape.node_mem {f : Frame} (h : Shape succ nodes s) (hf : f ∈ s.frames) : f.node ∈ nodes :=
  h.entered_mem _ (h.path_sublist.subset (List.mem_map_of_mem hf))

theorem Shape.move (dom : Domain succ nodes) (h : Shape succ nodes s) (m : Move succ s b s') :
    Shape succ nodes s' := by
  cases m with
  | skip _ =>
    exact { h with roots_mem := fun k hk => h.roots_mem k (List.mem_cons_of_mem _ hk) }
  | @start root roots marks found hnew =>
    have rest : Shape succ nodes ⟨roots, marks, [], found⟩ :=
      { h with roots_mem := fun k hk => h.roots_mem k (List.mem_cons_of_mem _ hk) }
    exact rest.enter hnew (h.roots_mem root List.mem_cons_self) (by simp)
  | leave => exact h.leave
  | @enter roots marks node next pending outer found hnew =>
    have looked : Shape succ nodes ⟨roots, marks, ⟨node, pending⟩ :: outer, found⟩ := h.look
    refine looked.enter hnew (dom.closed node (h.node_mem List.mem_cons_self) next h.next_mem) ?_
    intro f hf
    obtain rfl := Option.some.inj hf
    exact h.next_mem
  | @close _ _ _ next _ _ _ _ =>
    obtain ⟨found', heq⟩ := close_eq next
    rw [heq]
    exact h.look
  | pass _ => exact h.look

/-! ## The search ends -/

/-- The steps that the nodes outside `es` take: each has its successors looked at and is left. -/
def unentered (succ : NodeKey → List NodeKey) (nodes es : List NodeKey) : Nat :=
  (nodes.map fun k => if k ∈ es then 0 else (succ k).length + 1).sum

/-- The number of steps that are left: each root is tried, each node in progress has its remaining
successors looked at and is left, and the nodes not entered are to come. -/
def remaining (succ : NodeKey → List NodeKey) (nodes : List NodeKey) (s : Search) : Nat :=
  s.roots.length + (s.frames.map fun f => f.pending.length + 1).sum +
    unentered succ nodes s.entered

/-- Entering one more node takes its steps off those of the nodes not entered. -/
theorem unentered_cons {es : List NodeKey} {k : NodeKey} (nodup : nodes.Nodup) (hk : k ∈ nodes)
    (hnew : k ∉ es) :
    unentered succ nodes es = unentered succ nodes (k :: es) + ((succ k).length + 1) := by
  simp only [unentered]
  induction nodes with
  | nil => exact absurd hk List.not_mem_nil
  | cons a rest ih =>
    obtain ⟨hnot, nodup⟩ := List.nodup_cons.1 nodup
    rw [List.map_cons, List.map_cons, List.sum_cons, List.sum_cons]
    by_cases ha : a = k
    · subst ha
      have same : ∀ j ∈ rest, (if j ∈ es then 0 else (succ j).length + 1) =
          if j ∈ a :: es then 0 else (succ j).length + 1 := by
        intro j hj
        have hne : j ≠ a := fun heq => hnot (heq ▸ hj)
        simp [hne]
      rw [List.map_congr_left same, if_neg hnew, if_pos List.mem_cons_self]
      omega
    · have hrest : k ∈ rest := (List.mem_cons.1 hk).resolve_left (Ne.symm ha)
      have same : (if a ∈ es then 0 else (succ a).length + 1) =
          if a ∈ k :: es then 0 else (succ a).length + 1 := by
        simp [ha]
      rw [ih nodup hrest, same]
      omega

theorem remaining_enter (dom : Domain succ nodes) {k : NodeKey} (hnew : s.mark? k = none)
    (hk : k ∈ nodes) : remaining succ nodes (s.enter succ k) = remaining succ nodes s := by
  have entered_eq : (s.enter succ k).entered = k :: s.entered := rfl
  rw [remaining, remaining, entered_eq,
    unentered_cons dom.nodup_nodes hk (mark?_eq_none_iff.1 hnew)]
  simp only [Search.enter, List.map_cons, List.sum_cons]
  omega

theorem remaining_finish (k : NodeKey) :
    remaining succ nodes (s.finish k) = remaining succ nodes s := by
  rw [remaining, remaining, entered_finish, roots_finish, frames_finish]

theorem remaining_look {roots : List NodeKey} {marks : List (NodeKey × Mark)}
    {node next : NodeKey} {pending : List NodeKey} {outer : List Frame}
    {found found' : List (List NodeKey)} :
    remaining succ nodes ⟨roots, marks, ⟨node, pending⟩ :: outer, found'⟩ + 1 =
      remaining succ nodes ⟨roots, marks, ⟨node, next :: pending⟩ :: outer, found⟩ := by
  simp only [remaining, entered, List.map_cons, List.sum_cons, List.length_cons]
  omega

theorem remaining_root {root : NodeKey} {roots : List NodeKey} {marks : List (NodeKey × Mark)}
    {found : List (List NodeKey)} :
    remaining succ nodes ⟨roots, marks, [], found⟩ + 1 =
      remaining succ nodes ⟨root :: roots, marks, [], found⟩ := by
  simp only [remaining, entered, List.length_cons]
  omega

/-- Each move is one step less to go. -/
theorem remaining_move (dom : Domain succ nodes) (h : Shape succ nodes s)
    (m : Move succ s b s') : remaining succ nodes s' + 1 = remaining succ nodes s := by
  cases m with
  | skip _ => exact remaining_root
  | @start root roots marks found hnew =>
    have unmarked : mark? ⟨roots, marks, [], found⟩ root = none := hnew
    rw [← remaining_root, ← remaining_enter dom unmarked (h.roots_mem root List.mem_cons_self)]
    rfl
  | leave =>
    rw [remaining_finish]
    simp only [remaining, entered, List.map_cons, List.sum_cons, List.length_nil]
    omega
  | @enter roots marks node next pending outer found hnew =>
    have hnext : next ∈ nodes := dom.closed node (h.node_mem List.mem_cons_self) next h.next_mem
    have unmarked : mark? ⟨roots, marks, ⟨node, pending⟩ :: outer, found⟩ next = none := hnew
    rw [← remaining_look, ← remaining_enter dom unmarked hnext]
    rfl
  | @close _ _ _ next _ _ _ _ =>
    obtain ⟨found', heq⟩ := close_eq next
    rw [heq]
    exact remaining_look
  | pass _ => exact remaining_look

/-- As many steps as are left are enough. -/
theorem isFinished_run (dom : Domain succ nodes) {n : Nat} (h : Shape succ nodes s)
    (enough : remaining succ nodes s ≤ n) : (run succ n s).isFinished = true := by
  induction n generalizing s with
  | zero =>
    cases hfin : s.isFinished with
    | true => exact hfin
    | false =>
      -- a move would leave less than nothing
      have := remaining_move dom h (move_step hfin)
      omega
  | succ n ih =>
    rw [run]
    cases hfin : s.isFinished with
    | true => simpa using hfin
    | false =>
      have m : Move succ s s.backEdge? (s.step succ) := move_step hfin
      have := remaining_move dom h m
      exact ih (h.move dom m) (by omega)

/-- The bound of a search counts all steps from its start. -/
theorem remaining_initial (roots : List NodeKey) :
    remaining succ nodes { roots } = bound succ roots nodes := by
  have fold : (nodes.map fun k => (succ k).length + 1).sum =
      nodes.foldr (fun k n => (succ k).length + 1 + n) 0 := by
    induction nodes with
    | nil => rfl
    | cons k rest ih => rw [List.map_cons, List.sum_cons, ih, List.foldr_cons]
  simp [remaining, unentered, bound, entered, fold]

/-- Once nothing is left to do, more steps make no difference. -/
theorem run_add {m : Nat} (finished : (run succ m s).isFinished = true) (n : Nat) :
    run succ (m + n) s = run succ m s := by
  induction m generalizing s with
  | zero =>
    have hfin : s.isFinished = true := finished
    rw [Nat.zero_add]
    cases n with
    | zero => rfl
    | succ n => exact if_pos hfin
  | succ m ih =>
    rw [Nat.succ_add]
    rw [run] at finished ⊢
    rw [run]
    cases hfin : s.isFinished with
    | true => rfl
    | false =>
      rw [hfin] at finished
      exact ih finished

theorem bound_le_of_sublist {nodes' : List NodeKey} (sub : nodes.Sublist nodes')
    (roots : List NodeKey) : bound succ roots nodes ≤ bound succ roots nodes' := by
  induction sub with
  | slnil => exact Nat.le_refl _
  | cons k _ ih =>
    rw [bound, bound] at ih ⊢
    rw [List.foldr_cons]
    omega
  | cons_cons k _ ih =>
    rw [bound, bound] at ih ⊢
    rw [List.foldr_cons, List.foldr_cons]
    omega

theorem bound_le_of_subset {nodes' : List NodeKey} (nodup : nodes.Nodup) (sub : nodes ⊆ nodes')
    (roots : List NodeKey) : bound succ roots nodes ≤ bound succ roots nodes' := by
  obtain ⟨kept, perm, sublist⟩ := nodup.subperm sub
  refine le_of_eq_of_le ?_ (bound_le_of_sublist sublist roots)
  rw [bound, bound, perm.symm.foldr_eq' (fun _ _ _ _ n => by omega)]

/-- A search that stays in `nodes` finds the same when it is allowed more. -/
theorem findCycles_of_subset {roots nodes' : List NodeKey} (dom : Domain succ nodes)
    (hroots : ∀ k ∈ roots, k ∈ nodes) (sub : nodes ⊆ nodes') :
    findCycles succ roots nodes' = findCycles succ roots nodes := by
  have finished := isFinished_run dom (.initial hroots) (remaining_initial roots).le
  have hle : bound succ roots nodes ≤ bound succ roots nodes' :=
    bound_le_of_subset dom.nodup_nodes sub roots
  obtain ⟨more, heq⟩ := Nat.exists_eq_add_of_le hle
  rw [findCycles, findCycles, heq, run_add finished]

end LayerGraph.Search
