import LayerGraph.Proofs.SearchCycles
import Mathlib.Data.Set.Finite.Basic

/-!
# Searches that keep their path on a stack

A search has nothing but its frames: the path that it is on is read off them, and what it has looked
at is dropped. A traversal keeps books instead. The path is a stack of its own, which grows and
shrinks with the frames, a frame counts the successors that it has looked at, the mark of a node is
looked up in a table, and the cycles that are known are in a set beside the list. A traversal goes
the steps of the search one by one, so its books are right at every moment.

It also has answers to what never happens: a node in progress that is not on the stack, and a cycle
that is known already when an edge closes it.

Main statements:
1. `Stands.move`, `Stands.run`: a step of a traversal is the step of its search.
2. `Stands.coherent`: the books are right wherever a search may stand.
3. `stack_in_step`: what holds at every step and at the end.
-/

namespace LayerGraph

/-! ## Traversals -/

/-- A node in progress, all its successors, and how many of them have been looked at. -/
structure Visit where
  node : NodeKey
  successors : List NodeKey
  looked : Nat := 0
deriving DecidableEq, Repr

namespace Visit

/-- The successor to look at next. -/
def next? (v : Visit) : Option NodeKey :=
  v.successors[v.looked]?

def look (v : Visit) : Visit :=
  { v with looked := v.looked + 1 }

/-- The frame of the search: what has been looked at is dropped. -/
def frame (v : Visit) : Frame :=
  ⟨v.node, v.successors.drop v.looked⟩

variable {v : Visit} {node next : NodeKey} {pending : List NodeKey}

theorem next?_eq_head? : v.next? = v.frame.pending.head? :=
  List.head?_drop.symm

theorem frame_look (h : v.frame = ⟨node, next :: pending⟩) : v.look.frame = ⟨node, pending⟩ := by
  obtain ⟨hnode, hpending⟩ := Frame.mk.inj h
  have tail : v.successors.drop (v.looked + 1) = pending := by
    rw [← List.drop_drop, hpending, List.drop_one, List.tail_cons]
  rw [← hnode, ← tail]
  rfl

end Visit

/-- A search under way that keeps its path on a stack and the cycles that it knows in a set. -/
structure Traversal where
  /-- The roots that are still to be tried. -/
  roots : List NodeKey
  /-- How far it is with each node. -/
  mark? : NodeKey → Option Mark := fun _ => none
  /-- The path from the root to the current node. -/
  stack : List NodeKey := []
  /-- The nodes in progress, the one entered last in front. -/
  visits : List Visit := []
  /-- The cycles that are known, in no order. -/
  known : List (List NodeKey) := []
  /-- The cycles found so far, in order. -/
  cycles : List (List NodeKey) := []

namespace Traversal

/-- What a step does: it enters a node, leaves one, looks at an edge into a node in progress, or
passes over a root or a successor. -/
inductive Turn
  | enter (k : NodeKey)
  | leave (k : NodeKey)
  | back (source target : NodeKey)
  | pass
deriving DecidableEq, Repr

namespace Turn

def entered? : Turn → Option NodeKey
  | enter k => some k
  | _ => none

def back? : Turn → Option (NodeKey × NodeKey)
  | back source target => some (source, target)
  | _ => none

/-- What an edge comes to, by the mark of the node that it leads to. -/
def along (source target : NodeKey) : Option Mark → Turn
  | none => enter target
  | some .inProgress => back source target
  | some .done => pass

end Turn

/-- What the next step does, if there is anything left to do. -/
def turn? (t : Traversal) : Option Turn :=
  match t.visits with
  | [] => t.roots.head?.map fun root => if (t.mark? root).isSome then .pass else .enter root
  | v :: _ =>
    match v.next? with
    | none => some (.leave v.node)
    | some next => some (Turn.along v.node next (t.mark? next))

/-- Goes on to the next root or the next successor. -/
def look (t : Traversal) : Traversal :=
  match t.visits with
  | [] => { t with roots := t.roots.tail }
  | v :: outer => { t with visits := v.look :: outer }

def enter (succ : NodeKey → List NodeKey) (k : NodeKey) (t : Traversal) : Traversal :=
  { t with
    mark? := Function.update t.mark? k (some .inProgress)
    stack := t.stack ++ [k]
    visits := { node := k, successors := succ k } :: t.visits }

def leave (k : NodeKey) (t : Traversal) : Traversal :=
  { t with
    mark? := Function.update t.mark? k (some .done)
    stack := t.stack.dropLast
    visits := t.visits.tail }

/-- Records the cycle that an edge from the current node to `k` closes. -/
def close (k : NodeKey) (t : Traversal) : Traversal :=
  match t.stack.idxOf? k with
  | none => t
  | some start =>
    let cycle := rotateToLeast (t.stack.drop start)
    if t.known.contains cycle then t
    else { t with known := cycle :: t.known, cycles := t.cycles ++ [cycle] }

def step (succ : NodeKey → List NodeKey) (t : Traversal) : Traversal :=
  match t.turn? with
  | none => t
  | some (.enter k) => t.look.enter succ k
  | some (.leave k) => t.leave k
  | some (.back _ k) => t.look.close k
  | some .pass => t.look

/-- At most `n` steps. -/
def run (succ : NodeKey → List NodeKey) : Nat → Traversal → Traversal
  | 0, t => t
  | n + 1, t => if t.turn?.isNone then t else run succ n (t.step succ)

/-- What at most `n` steps do, in order. -/
def turns (succ : NodeKey → List NodeKey) : Nat → Traversal → List Turn
  | 0, _ => []
  | n + 1, t =>
    match t.turn? with
    | none => []
    | some turn => turn :: turns succ n (t.step succ)

/-- The nodes that at most `n` steps enter, once for each time that one is entered. -/
def entries (succ : NodeKey → List NodeKey) (n : Nat) (t : Traversal) : List NodeKey :=
  (turns succ n t).filterMap Turn.entered?

/-- The edges into nodes in progress that at most `n` steps look at. -/
def backs (succ : NodeKey → List NodeKey) (n : Nat) (t : Traversal) : List (NodeKey × NodeKey) :=
  (turns succ n t).filterMap Turn.back?

variable {succ : NodeKey → List NodeKey} {nodes roots : List NodeKey} {t : Traversal}
  {s s' : Search} {b : Option (NodeKey × NodeKey)} {bs : List (NodeKey × NodeKey)}

theorem mark?_enter (k j : NodeKey) :
    (t.enter succ k).mark? j = if j = k then some .inProgress else t.mark? j :=
  Function.update_apply _ _ _ _

theorem mark?_leave (k j : NodeKey) :
    (t.leave k).mark? j = if j = k then some .done else t.mark? j :=
  Function.update_apply _ _ _ _

/-! ## A traversal is a search -/

/-- The traversal `t` stands where the search `s` stands. -/
structure Stands (t : Traversal) (s : Search) : Prop where
  roots : t.roots = s.roots
  mark : ∀ k, t.mark? k = s.mark? k
  stack : t.stack = s.path
  frames : t.visits.map Visit.frame = s.frames
  known : ∀ cycle, cycle ∈ t.known ↔ cycle ∈ t.cycles
  cycles : t.cycles = s.found

theorem Stands.initial (roots : List NodeKey) : Stands { roots } { roots } :=
  ⟨rfl, fun _ => rfl, rfl, rfl, fun _ => Iff.rfl, rfl⟩

theorem drop_of_idxOf? {ks : List NodeKey} {k : NodeKey} {i : Nat} (h : ks.idxOf? k = some i) :
    ks.drop i = ks.dropWhile (· ≠ k) := by
  induction ks generalizing i with
  | nil => exact absurd h (by simp)
  | cons j rest ih =>
    rw [List.idxOf?_cons] at h
    by_cases hj : j = k
    · rw [if_pos (beq_iff_eq.2 hj)] at h
      obtain rfl := Option.some.inj h
      simp [hj]
    · rw [if_neg (mt beq_iff_eq.1 hj)] at h
      obtain ⟨i, hi, rfl⟩ := Option.map_eq_some_iff.1 h
      simpa [hj] using ih hi

/-- The stack and the path of the search are cut at the same place. -/
theorem Stands.exists_idxOf? (h : Stands t s) {k : NodeKey} (hk : k ∈ s.path) :
    ∃ i, t.stack.idxOf? k = some i ∧ t.stack.drop i = s.pathFrom k := by
  rw [h.stack]
  cases hi : s.path.idxOf? k with
  | none => exact absurd hk (List.idxOf?_eq_none_iff.1 hi)
  | some i => exact ⟨i, rfl, drop_of_idxOf? hi⟩

section Step

variable {marks : List (NodeKey × Mark)} {node root next : NodeKey} {pending : List NodeKey}
  {outer : List Frame} {found : List (List NodeKey)}

theorem Stands.visits_eq (h : Stands t ⟨roots, marks, ⟨node, pending⟩ :: outer, found⟩) :
    ∃ v below, t.visits = v :: below ∧ v.frame = ⟨node, pending⟩ ∧ below.map Visit.frame = outer :=
  List.map_eq_cons_iff.1 h.frames

theorem Stands.visits_eq_nil (h : Stands t ⟨roots, marks, [], found⟩) : t.visits = [] :=
  List.map_eq_nil_iff.1 h.frames

/-! ### The turn of a step -/

theorem Stands.turn?_finished (h : Stands t ⟨[], marks, [], found⟩) : t.turn? = none := by
  have hroots : t.roots = [] := h.roots
  simp [turn?, h.visits_eq_nil, hroots]

theorem Stands.turn?_root (h : Stands t ⟨root :: roots, marks, [], found⟩) :
    t.turn? = some (if (marks.lookup root).isSome then .pass else .enter root) := by
  have hroots : t.roots = root :: roots := h.roots
  have hmark : t.mark? root = marks.lookup root := h.mark root
  simp only [turn?, h.visits_eq_nil, hroots, List.head?_cons, Option.map_some, hmark]

theorem Stands.turn?_leave (h : Stands t ⟨roots, marks, ⟨node, []⟩ :: outer, found⟩) :
    t.turn? = some (.leave node) := by
  obtain ⟨v, below, hvisits, hframe, -⟩ := h.visits_eq
  have hnode : v.node = node := (Frame.mk.inj hframe).1
  simp [turn?, hvisits, Visit.next?_eq_head?, hframe, hnode]

theorem Stands.turn?_next (h : Stands t ⟨roots, marks, ⟨node, next :: pending⟩ :: outer, found⟩) :
    t.turn? = some (Turn.along node next (marks.lookup next)) := by
  obtain ⟨v, below, hvisits, hframe, -⟩ := h.visits_eq
  have hnode : v.node = node := (Frame.mk.inj hframe).1
  have hmark : t.mark? next = marks.lookup next := h.mark next
  simp [turn?, hvisits, Visit.next?_eq_head?, hframe, hnode, hmark]

/-! ### What a step makes of the books -/

theorem Stands.look_root (h : Stands t ⟨root :: roots, marks, [], found⟩) :
    Stands t.look ⟨roots, marks, [], found⟩ := by
  have hroots : t.roots = root :: roots := h.roots
  have hlook : t.look = { t with roots } := by simp [look, h.visits_eq_nil, hroots]
  rw [hlook]
  exact { h with roots := rfl }

theorem Stands.look_next (h : Stands t ⟨roots, marks, ⟨node, next :: pending⟩ :: outer, found⟩) :
    Stands t.look ⟨roots, marks, ⟨node, pending⟩ :: outer, found⟩ := by
  obtain ⟨v, below, hvisits, hframe, hbelow⟩ := h.visits_eq
  have hlook : t.look = { t with visits := v.look :: below } := by simp [look, hvisits]
  rw [hlook]
  refine { h with frames := ?_ }
  rw [List.map_cons, Visit.frame_look hframe, hbelow]

theorem Stands.enter (h : Stands t s) (k : NodeKey) :
    Stands (t.enter succ k) (s.enter succ k) where
  roots := h.roots
  mark j := by
    rw [mark?_enter, Search.enter, Search.mark?_cons, h.mark]
    rfl
  stack := by
    rw [Traversal.enter, Search.enter, h.stack, Search.path, Search.path, List.map_cons,
      List.reverse_cons]
  frames := by
    rw [Traversal.enter, Search.enter, List.map_cons, h.frames]
    rfl
  known := h.known
  cycles := h.cycles

/-- The node that is left has been entered, so the table and the search mark the same. -/
theorem Stands.leave (h : Stands t ⟨roots, marks, ⟨node, []⟩ :: outer, found⟩)
    (hmark : marks.lookup node = some .inProgress) :
    Stands (t.leave node) (Search.finish node ⟨roots, marks, outer, found⟩) where
  roots := h.roots
  mark j := by
    have same : t.mark? j = marks.lookup j := h.mark j
    rw [mark?_leave, Search.mark?_finish, same]
    by_cases hj : j = node
    · simp [hj, Search.mark?, hmark]
    · simp [hj, Search.mark?]
  stack := by
    rw [Traversal.leave, h.stack, Search.path, List.map_cons, List.reverse_cons,
      List.dropLast_concat]
    rfl
  frames := by
    obtain ⟨v, below, hvisits, -, hbelow⟩ := h.visits_eq
    rw [Traversal.leave, hvisits]
    exact hbelow
  known := h.known
  cycles := h.cycles

theorem Stands.close (h : Stands t s) {k : NodeKey} (hk : k ∈ s.path) :
    Stands (t.close k) (s.close k) := by
  obtain ⟨i, hi, hdrop⟩ := h.exists_idxOf? hk
  simp only [Traversal.close, hi, hdrop]
  by_cases hcycle : rotateToLeast (s.pathFrom k) ∈ s.found
  · have same : s.close k = s := by
      rw [Search.close, if_pos hk]
      exact if_pos hcycle
    rw [same, if_pos (List.contains_iff_mem.2 ((h.known _).2 (h.cycles ▸ hcycle)))]
    exact h
  · rw [Search.close_of_not_mem hk hcycle,
      if_neg fun hknown => hcycle (h.cycles ▸ (h.known _).1 (List.contains_iff_mem.1 hknown))]
    refine { h with known := fun cycle => ?_, cycles := ?_ }
    · rw [List.mem_cons, List.mem_append, List.mem_singleton, h.known cycle]
      exact or_comm
    · exact congrArg (· ++ _) h.cycles

end Step

/-- A step of the traversal is the step of the search, and tells what that does. -/
theorem Stands.move (h : Stands t s) (shape : Search.Shape succ nodes s)
    (m : Search.Move succ s b s') :
    ∃ turn, t.turn? = some turn ∧ turn.back? = b ∧
      s'.entered = turn.entered?.toList ++ s.entered ∧ Stands (t.step succ) s' := by
  cases m with
  | @skip root roots marks found m hmark =>
    have hturn := h.turn?_root
    simp only [hmark, Option.isSome_some, if_true] at hturn
    refine ⟨_, hturn, rfl, rfl, ?_⟩
    simp only [step, hturn]
    exact h.look_root
  | @start root roots marks found hnew =>
    have hturn := h.turn?_root
    simp only [hnew, Option.isSome_none, Bool.false_eq_true, if_false] at hturn
    refine ⟨_, hturn, rfl, rfl, ?_⟩
    simp only [step, hturn]
    exact h.look_root.enter root
  | @leave roots marks node outer found =>
    refine ⟨_, h.turn?_leave, rfl, Search.entered_finish node, ?_⟩
    simp only [step, h.turn?_leave]
    exact h.leave ((shape.inProgress_iff node).2 List.mem_cons_self)
  | @enter roots marks node next pending outer found hnew =>
    have hturn := h.turn?_next
    simp only [hnew, Turn.along] at hturn
    refine ⟨_, hturn, rfl, rfl, ?_⟩
    simp only [step, hturn]
    exact h.look_next.enter next
  | @close roots marks node next pending outer found hmark =>
    have hturn := h.turn?_next
    simp only [hmark, Turn.along] at hturn
    have hpath : next ∈ Search.path ⟨roots, marks, ⟨node, pending⟩ :: outer, found⟩ :=
      Search.mem_path.2 ((shape.inProgress_iff next).1 hmark)
    refine ⟨_, hturn, rfl, ?_, ?_⟩
    · obtain ⟨found', heq⟩ :=
        Search.close_eq (s := ⟨roots, marks, ⟨node, pending⟩ :: outer, found⟩) next
      rw [heq]
      rfl
    · simp only [step, hturn]
      exact h.look_next.close hpath
  | @pass roots marks node next pending outer found hmark =>
    have hturn := h.turn?_next
    simp only [hmark, Turn.along] at hturn
    refine ⟨_, hturn, rfl, rfl, ?_⟩
    simp only [step, hturn]
    exact h.look_next

/-- A traversal has nothing left to do when its search is finished. -/
theorem Stands.turn?_eq_none_iff (h : Stands t s) (shape : Search.Shape succ nodes s) :
    t.turn? = none ↔ s.isFinished = true := by
  cases hfin : s.isFinished with
  | true =>
    obtain ⟨roots, marks, frames, found⟩ := s
    obtain ⟨rfl, rfl⟩ : frames = [] ∧ roots = [] := Search.isFinished_iff.1 hfin
    exact iff_of_true h.turn?_finished rfl
  | false =>
    obtain ⟨turn, hturn, -⟩ := h.move shape (Search.move_step hfin)
    simp [hturn]

/-- A run of the traversal is the run of its search. -/
theorem Stands.run (dom : Search.Domain succ nodes) (h : Stands t s)
    (shape : Search.Shape succ nodes s) (n : Nat) :
    Stands (run succ n t) (Search.run succ n s) ∧ backs succ n t = Search.backEdges succ n s ∧
      (Search.run succ n s).entered = (entries succ n t).reverse ++ s.entered := by
  induction n generalizing t s with
  | zero => exact ⟨h, rfl, rfl⟩
  | succ n ih =>
    have hfin := h.turn?_eq_none_iff shape
    cases hs : s.isFinished with
    | true =>
      have hturn : t.turn? = none := hfin.2 hs
      simp only [Traversal.run, backs, entries, turns, hturn, Search.run, Search.backEdges, hs]
      exact ⟨h, rfl, rfl⟩
    | false =>
      have m : Search.Move succ s s.backEdge? (s.step succ) := Search.move_step hs
      obtain ⟨turn, hturn, hback, hentered, h'⟩ := h.move shape m
      obtain ⟨stands, backs_eq, entered_eq⟩ := ih h' (shape.move dom m)
      simp only [Traversal.run, Search.run, Search.backEdges, hs, hturn, Option.isNone_some,
        Bool.false_eq_true, if_false]
      refine ⟨stands, ?_, ?_⟩
      · rw [← backs_eq, ← hback]
        simp only [backs, turns, hturn, List.filterMap_cons]
        cases turn.back? <;> rfl
      · rw [entered_eq, hentered]
        simp only [entries, turns, hturn, List.filterMap_cons]
        cases turn.entered? with
        | none => rfl
        | some k => simp

/-! ## The books are right -/

/-- What holds of a traversal at every step: the stack lists the nodes of the frames, it is a path
on which nothing is repeated, and it holds the nodes in progress. An edge into a node in progress
leads to a node on the stack, and closes a cycle that is not known, from wherever it is written. -/
structure Coherent (succ : NodeKey → List NodeKey) (t : Traversal) : Prop where
  stack_eq : t.stack = (t.visits.map Visit.node).reverse
  nodup : t.stack.Nodup
  chain : t.stack.IsChain fun u v => v ∈ succ u
  inProgress_iff : ∀ k, t.mark? k = some .inProgress ↔ k ∈ t.stack
  back : ∀ u v, t.turn? = some (.back u v) → ∃ i, t.stack.idxOf? v = some i ∧
    rotateToLeast (t.stack.drop i) ∉ t.known ∧ ∀ cycle ∈ t.cycles, ¬ cycle ~r t.stack.drop i

theorem Stands.coherent (h : Stands t s) (sound : Search.Sound succ nodes roots s bs) :
    Coherent succ t where
  stack_eq := by
    rw [h.stack, Search.path, ← h.frames, List.map_map]
    rfl
  nodup := by
    rw [h.stack]
    exact List.nodup_reverse.2 sound.shape.nodup_path
  chain := by
    rw [h.stack]
    exact sound.shape.isChain_path.imp fun _ _ r => r.1
  inProgress_iff k := by
    rw [h.mark, h.stack, sound.shape.inProgress_iff, Search.mem_path]
  back := by
    intro u v hback
    cases hs : s.isFinished with
    | true =>
      rw [(h.turn?_eq_none_iff sound.shape).2 hs] at hback
      exact absurd hback (by simp)
    | false =>
      have m : Search.Move succ s s.backEdge? (s.step succ) := Search.move_step hs
      obtain ⟨turn, hturn, edge, -⟩ := h.move sound.shape m
      obtain rfl := Option.some.inj (hturn.symm.trans hback)
      generalize s.backEdge? = b at m edge
      subst edge
      generalize s.step succ = s' at m
      cases m with
      | close hmark =>
        obtain ⟨i, hi, hdrop⟩ :=
          h.exists_idxOf? (Search.mem_path.2 ((sound.shape.inProgress_iff v).1 hmark))
        have fresh {cycle : List NodeKey} (hcycle : cycle ∈ t.cycles) :
            ¬ cycle ~r t.stack.drop i := by
          rw [h.cycles] at hcycle
          rw [hdrop]
          exact sound.reported.not_isRotated sound.shape rfl hmark hcycle
        refine ⟨i, hi, fun hknown => ?_, fun cycle hcycle => fresh hcycle⟩
        exact fresh ((h.known _).1 hknown) (isRotated_rotateToLeast _)

/-- A depth-first search that keeps its path on a stack has its books in order at every step. It
comes to an end, having entered each node that the roots lead to once and no other, and it has
listed one cycle for each edge that led into a node in progress. These are the cycles of
`findCycles`. -/
theorem stack_in_step (succ : NodeKey → List NodeKey) (roots : List NodeKey)
    (finite : {k | Search.Reached succ roots k}.Finite) (nodup : ∀ k, (succ k).Nodup)
    (irrefl : ∀ k, k ∉ succ k) :
    (∀ n, Stands (run succ n { roots }) (Search.run succ n { roots }) ∧
      Coherent succ (run succ n { roots })) ∧
    ∃ n, (run succ n { roots }).turn? = none ∧
      (entries succ n { roots }).Nodup ∧
      (∀ k, k ∈ entries succ n { roots } ↔ Search.Reached succ roots k) ∧
      (backs succ n { roots }).Nodup ∧
      (run succ n { roots }).cycles.length = (backs succ n { roots }).length ∧
      ∀ nodes, (∀ k, Search.Reached succ roots k → k ∈ nodes) →
        (run succ n { roots }).cycles = findCycles succ roots nodes := by
  obtain ⟨nodes, nodup_nodes, mem_nodes⟩ :
      ∃ nodes : List NodeKey, nodes.Nodup ∧ ∀ k, k ∈ nodes ↔ Search.Reached succ roots k :=
    ⟨finite.toFinset.toList, Finset.nodup_toList _, fun k => by simp⟩
  have hroots : ∀ k ∈ roots, k ∈ nodes := fun k hk => (mem_nodes k).2 ⟨k, hk, .refl⟩
  have dom : Search.Domain succ nodes := by
    refine ⟨nodup_nodes, fun k hk v hv => (mem_nodes v).2 ?_, nodup, irrefl⟩
    obtain ⟨root, hroot, path⟩ := (mem_nodes k).1 hk
    exact ⟨root, hroot, path.tail hv⟩
  have start : Search.Shape succ nodes { roots } := .initial hroots
  have stands (n : Nat) := (Stands.initial roots).run dom start n
  have sound (n : Nat) := Search.Sound.run dom hroots n
  refine ⟨fun n => ⟨(stands n).1, (stands n).1.coherent (sound n)⟩,
    Search.bound succ roots nodes, ?_⟩
  have finished := Search.isFinished_run dom start (Search.remaining_initial roots).le
  obtain ⟨same, backs_eq, entered_eq⟩ := stands (Search.bound succ roots nodes)
  have last := sound (Search.bound succ roots nodes)
  have entered_iff (k : NodeKey) : k ∈ entries succ (Search.bound succ roots nodes) { roots } ↔
      k ∈ (Search.run succ (Search.bound succ roots nodes) { roots }).entered := by
    rw [entered_eq]
    simp [Search.entered]
  refine ⟨(same.turn?_eq_none_iff last.shape).2 finished, ?_, fun k => ?_, ?_, ?_, ?_⟩
  · have nodup_entered := last.shape.nodup_entered
    rw [entered_eq] at nodup_entered
    exact List.nodup_reverse.1 nodup_entered.of_append_left
  · rw [entered_iff]
    exact ⟨fun hk => (mem_nodes k).1 (last.shape.entered_mem k hk),
      fun hk => last.mem_entered finished hk⟩
  · rw [backs_eq]
    exact last.nodup
  · rw [backs_eq, same.cycles]
    exact last.reported.closedBy.length_eq
  · intro nodes' hnodes
    have sub : nodes ⊆ nodes' := fun k hk => hnodes k ((mem_nodes k).1 hk)
    rw [same.cycles, Search.findCycles_of_subset dom hroots sub]
    rfl

/-- Two circles with a member in common, and a class that leads to them. -/
def twoCircles (k : NodeKey) : List NodeKey :=
  if k = ⟨.classDef, "A"⟩ then [⟨.classDef, "B"⟩]
  else if k = ⟨.classDef, "B"⟩ then [⟨.classDef, "A"⟩, ⟨.classDef, "C"⟩]
  else if k = ⟨.classDef, "C"⟩ then [⟨.classDef, "B"⟩]
  else if k = ⟨.classDef, "D"⟩ then [⟨.classDef, "A"⟩]
  else []

def circleRoots : List NodeKey := [⟨.classDef, "A"⟩, ⟨.classDef, "D"⟩, ⟨.classDef, "A"⟩]

theorem stack_in_step_twoCircles :
    ∃ n, (run twoCircles n { roots := circleRoots }).turn? = none ∧
      (run twoCircles n { roots := circleRoots }).cycles =
        [[⟨.classDef, "A"⟩, ⟨.classDef, "B"⟩], [⟨.classDef, "B"⟩, ⟨.classDef, "C"⟩]] ∧
      (backs twoCircles n { roots := circleRoots }).length = 2 := by
  let nodes : List NodeKey :=
    [⟨.classDef, "A"⟩, ⟨.classDef, "B"⟩, ⟨.classDef, "C"⟩, ⟨.classDef, "D"⟩]
  have closed : ∀ k ∈ nodes, ∀ v ∈ twoCircles k, v ∈ nodes := by decide
  have reached : ∀ k, Search.Reached twoCircles circleRoots k → k ∈ nodes := by
    rintro k ⟨root, hroot, path⟩
    induction path with
    | refl => exact (by decide : circleRoots ⊆ nodes) hroot
    | tail _ hv ih => exact closed _ ih _ hv
  have finite : {k | Search.Reached twoCircles circleRoots k}.Finite :=
    (List.finite_toSet nodes).subset reached
  have nodup : ∀ k, (twoCircles k).Nodup := by
    intro k
    unfold twoCircles
    split_ifs <;> decide
  have irrefl : ∀ k, k ∉ twoCircles k := by
    intro k
    unfold twoCircles
    split_ifs with ha hb hc hd
    · subst ha; decide
    · subst hb; decide
    · subst hc; decide
    · subst hd; decide
    · exact List.not_mem_nil
  obtain ⟨-, n, ended, -, -, -, count, cycles⟩ :=
    stack_in_step twoCircles circleRoots finite nodup irrefl
  have found : findCycles twoCircles circleRoots nodes =
      [[⟨.classDef, "A"⟩, ⟨.classDef, "B"⟩], [⟨.classDef, "B"⟩, ⟨.classDef, "C"⟩]] := by
    decide +kernel
  have listed := (cycles nodes reached).trans found
  refine ⟨n, ended, listed, ?_⟩
  rw [← count, listed]
  rfl

end Traversal

end LayerGraph
