import LayerGraph.Graph

/-!
# Cycles

A depth-first search marks a node as in progress when it enters it and as done when it leaves it.
An edge into a node in progress closes a cycle: the nodes entered since then, up to the current
one. Roots and successors are taken in the given order, so one graph has one list of cycles.

The search is a state with a step, so that what holds at every moment of it can be stated. It is
written for any successor function; the order of a layer with cycles in it uses it on what is left
of the layer.
-/

namespace LayerGraph

/-- How far the search is with a node that it has entered. -/
inductive Mark
  | inProgress
  | done
deriving DecidableEq, Repr

/-- A node in progress and the successors of it that are still to be looked at. -/
structure Frame where
  node : NodeKey
  pending : List NodeKey
deriving DecidableEq, Repr

/-- A search under way. -/
structure Search where
  /-- The roots that are still to be tried. -/
  roots : List NodeKey
  /-- The marks of the nodes entered so far. -/
  marks : List (NodeKey × Mark) := []
  /-- The nodes in progress, the one entered last in front. -/
  frames : List Frame := []
  /-- The cycles found so far, in order. -/
  found : List (List NodeKey) := []
deriving DecidableEq, Repr

/-- The same cycle written from its smallest key on. -/
def rotateToLeast (cycle : List NodeKey) : List NodeKey :=
  match Sorted.least? id cycle with
  | none => []
  | some least => cycle.dropWhile (· ≠ least) ++ cycle.takeWhile (· ≠ least)

namespace Search

def mark? (s : Search) (k : NodeKey) : Option Mark :=
  s.marks.lookup k

/-- The path that the search is on, from the root to the current node. -/
def path (s : Search) : List NodeKey :=
  (s.frames.map Frame.node).reverse

/-- Enters a node. -/
def enter (succ : NodeKey → List NodeKey) (k : NodeKey) (s : Search) : Search :=
  { s with marks := (k, .inProgress) :: s.marks, frames := ⟨k, succ k⟩ :: s.frames }

/-- Marks a node that was entered as done. -/
def finish (k : NodeKey) (s : Search) : Search :=
  { s with marks := s.marks.map fun (n, m) => (n, if n = k then .done else m) }

/-- Records the cycle that an edge from the current node to `k` closes, unless it is known. -/
def close (k : NodeKey) (s : Search) : Search :=
  if k ∈ s.path then
    let cycle := rotateToLeast (s.path.dropWhile (· ≠ k))
    if cycle ∈ s.found then s else { s with found := s.found ++ [cycle] }
  else s

/-- One step: look at the next successor of the current node, leave it when there is none, or try
the next root. -/
def step (succ : NodeKey → List NodeKey) (s : Search) : Search :=
  match s.frames with
  | [] =>
    match s.roots with
    | [] => s
    | root :: roots =>
      let s := { s with roots }
      if (s.mark? root).isSome then s else s.enter succ root
  | ⟨node, []⟩ :: outer => { s.finish node with frames := outer }
  | ⟨node, next :: pending⟩ :: outer =>
    let s := { s with frames := ⟨node, pending⟩ :: outer }
    match s.mark? next with
    | none => s.enter succ next
    | some .inProgress => s.close next
    | some .done => s

/-- Nothing is left to do. -/
def isFinished (s : Search) : Bool :=
  s.frames.isEmpty && s.roots.isEmpty

/-- At most `n` steps. -/
def run (succ : NodeKey → List NodeKey) : Nat → Search → Search
  | 0, s => s
  | n + 1, s => if s.isFinished then s else run succ n (s.step succ)

/-- A number of steps that is enough when all that is reachable from the roots lies in `nodes`: each
root is tried once, and each node is entered once, left once and each of its successors is looked
at once. -/
def bound (succ : NodeKey → List NodeKey) (roots nodes : List NodeKey) : Nat :=
  roots.length + nodes.foldr (fun k n => (succ k).length + 1 + n) 0

end Search

/-- The cycles that a depth-first search from `roots` closes, in the order in which it finds them,
each written from its smallest key on. `nodes` has to hold all that is reachable. -/
def findCycles (succ : NodeKey → List NodeKey) (roots nodes : List NodeKey) :
    List (List NodeKey) :=
  (Search.run succ (Search.bound succ roots nodes) { roots }).found

/-! ## Cycles of a graph -/

/-- A cycle: its members in edge order, of which the last depends on the first, and the member whose
next dependency is the cheapest to give up. -/
structure Cycle where
  members : List NodeKey
  suggestedBreak : NodeKey
deriving DecidableEq, Repr

namespace Cycle

/-- The weight by which the member to break at is chosen: the number of edges into it in the whole
graph, then its key. -/
structure BreakWeight where
  inDegree : Nat
  key : NodeKey
deriving DecidableEq, Repr

instance : Ord BreakWeight :=
  ⟨compareLex (compareOn BreakWeight.inDegree) (compareOn BreakWeight.key)⟩

/-- The cycle with the given members, unless there are none. -/
def ofMembers? (g : Graph) (members : List NodeKey) : Option Cycle :=
  (Sorted.least? (fun k => BreakWeight.mk (g.inDegree k) k) members).map fun weakest =>
    { members, suggestedBreak := weakest }

/-- The member after `k`, round the end; of a key that is listed twice the first place counts. -/
def successorOf? (c : Cycle) (k : NodeKey) : Option NodeKey :=
  match c.members.idxOf? k with
  | none => none
  | some i => c.members[(i + 1) % c.members.length]?

end Cycle

namespace Graph

/-- The cycles of a graph, in the order in which the search from the nodes in key order finds
them. -/
def cycles (g : Graph) : List Cycle :=
  (findCycles g.successors g.sortedKeys g.sortedKeys).filterMap (Cycle.ofMembers? g)

def hasCycles (g : Graph) : Bool :=
  !g.cycles.isEmpty

end Graph

end LayerGraph
