import LayerGraph.Proofs.DraftInvariant

/-!
# Keeping the ready nodes

A draft looks through all that is left for a ready node. A worklist keeps the ready nodes in a list
of their own: a node that is placed is taken off what its dependents wait for, and a dependent that
then waits for nothing joins the list. Who depends on whom is noted once, at the start, so the notes
may still name dependencies that were given up later.

A worklist has an answer to every state, also to those that a correct bookkeeping never comes to: a
ready node that has its place already is passed over, and a stall without a cycle is ended by giving
up some dependency, or by making all that is left ready. Read as a draft, it goes the steps of the
draft one by one, and it never takes any of these ways out.

Main statements:
1. `Kept.forget`: taking one node off what another waits for keeps the books right.
2. `Kept.step`: a step of a worklist is the step of its draft.
3. `run_start`: so is a run from the start.
-/

namespace LayerGraph

open Sorted (Ascending)

/-- An order of one layer under way, with the ready nodes kept. -/
structure Worklist where
  /-- The nodes of the layer, in key order. -/
  members : List NodeKey
  /-- Who depended on a node at the start. -/
  dependents : NodeKey → List NodeKey
  /-- What a node still waits for. -/
  waitsFor : NodeKey → List NodeKey
  /-- The nodes that wait for nothing and have no place yet, in key order. -/
  ready : List NodeKey
  /-- The nodes that have their place, in order. -/
  placed : List NodeKey := []
  /-- The dependencies given up so far, in order. -/
  dropped : List (NodeKey × NodeKey) := []

namespace Worklist

/-- What a worklist does next.

* `place`, `pass`: the first of the ready nodes gets its place, or has it already.
* `breakCycle`: no node is ready, and a cycle is broken at its suggested break.
* `breakLeast`: there is no cycle either, and the smallest key gives up the first of what it waits
  for.
* `release`: there is nothing to give up, and all that is left becomes ready. -/
inductive Turn
  | place (k : NodeKey)
  | pass (k : NodeKey)
  | breakCycle (c : Cycle) (target : NodeKey)
  | breakLeast (source target : NodeKey)
  | release
deriving DecidableEq, Repr

/-- The nodes that have no place yet, in key order. -/
def remaining (w : Worklist) : List NodeKey :=
  w.members.filter (· ∉ w.placed)

/-- The draft that a worklist stands for. -/
def draft (w : Worklist) : Draft where
  placed := w.placed
  waiting := w.remaining.map fun k => (k, w.waitsFor k)
  dropped := w.dropped

/-- The start: a member waits for what it depends on inside the layer. -/
def start (g : Graph) (members : List NodeKey) : Worklist :=
  let needs := fun k => (g.successors k).filter (· ∈ members)
  { members
    dependents := fun k => members.filter (k ∈ needs ·)
    waitsFor := fun k => if k ∈ members then needs k else []
    ready := members.filter (fun k => (needs k).isEmpty) }

/-- Takes `k` off what `j` waits for. If `j` then waits for nothing, it is ready. -/
def forget (w : Worklist) (j k : NodeKey) : Worklist :=
  let waits := (w.waitsFor j).filter (· ≠ k)
  { w with
    waitsFor := Function.update w.waitsFor j waits
    ready := if waits.isEmpty then Sorted.distinct (j :: w.ready) else w.ready }

/-- Tells a dependent that `k` has its place. -/
def tell (k : NodeKey) (w : Worklist) (j : NodeKey) : Worklist :=
  if j ∈ w.placed then w else w.forget j k

/-- Gives `k` the next place and tells its dependents. -/
def place (w : Worklist) (k : NodeKey) : Worklist :=
  (w.dependents k).foldl (tell k) { w with ready := w.ready.tail, placed := w.placed ++ [k] }

/-- Gives up one dependency. -/
def giveUp (w : Worklist) (source target : NodeKey) : Worklist :=
  { (if source ∈ w.remaining then w.forget source target else w) with
    dropped := w.dropped ++ [(source, target)] }

/-- The first cycle among the nodes that have no place yet, along what they wait for. -/
def cycle? (g : Graph) (w : Worklist) : Option Cycle :=
  (findCycles w.waitsFor w.remaining w.members).head?.bind (Cycle.ofMembers? g)

/-- What comes next. -/
def turn (g : Graph) (w : Worklist) : Turn :=
  match w.ready with
  | k :: _ => if k ∈ w.placed then .pass k else .place k
  | [] =>
    match w.cycle? g with
    | some c =>
      match c.successorOf? c.suggestedBreak with
      | some target => .breakCycle c target
      | none => .release
    | none =>
      match w.remaining with
      | [] => .release
      | k :: _ =>
        match w.waitsFor k with
        | [] => .release
        | target :: _ => .breakLeast k target

/-- One step. -/
def step (g : Graph) (w : Worklist) : Worklist :=
  match w.turn g with
  | .place k => w.place k
  | .pass _ => { w with ready := w.ready.tail }
  | .breakCycle c target => w.giveUp c.suggestedBreak target
  | .breakLeast source target => w.giveUp source target
  | .release => { w with ready := w.remaining }

/-- At most `n` steps, until there are as many places as members. -/
def run (g : Graph) : Nat → Worklist → Worklist
  | 0, w => w
  | n + 1, w => if w.members.length ≤ w.placed.length then w else run g n (w.step g)

variable {g : Graph} {w : Worklist} {members : List NodeKey} {k j v source target : NodeKey}

theorem mem_remaining : k ∈ w.remaining ↔ k ∈ w.members ∧ k ∉ w.placed := by
  rw [remaining, List.mem_filter, decide_eq_true_iff]

theorem left_draft : w.draft.left = w.remaining := by
  rw [Draft.left, draft, List.map_map]
  exact List.map_id _

/-! ## The books -/

/-- The books are right: the ready nodes are those that have no place and wait for nothing, everyone
who waits for a node is noted as its dependent, and what has its place waits for nothing. -/
structure Kept (w : Worklist) : Prop where
  ascending : Ascending w.members
  ready_ascending : Ascending w.ready
  mem_ready : ∀ k, k ∈ w.ready ↔ k ∈ w.remaining ∧ w.waitsFor k = []
  mem_dependents : ∀ j k, k ∈ w.waitsFor j → j ∈ w.dependents k
  dependents_mem : ∀ k, ∀ j ∈ w.dependents k, j ∈ w.members
  idle : ∀ k, k ∉ w.remaining → w.waitsFor k = []

theorem Kept.ascending_left (h : Kept w) : Ascending w.draft.left := by
  rw [left_draft]
  exact h.ascending.filter _

/-- The draft waits for the same. -/
theorem Kept.waitsFor_draft (h : Kept w) : w.draft.waitsFor = w.waitsFor := by
  funext k
  by_cases hk : k ∈ w.remaining
  · exact Draft.waitsFor_of_mem h.ascending_left.nodup (List.mem_map.2 ⟨k, hk, rfl⟩)
  · rw [h.idle k hk]
    exact Draft.waitsFor_of_not_mem (left_draft.symm ▸ hk)

theorem kept_start (ascending : Ascending members) : Kept (start g members) := by
  have remaining_eq : (start g members).remaining = members :=
    List.filter_eq_self.2 fun _ _ => decide_eq_true List.not_mem_nil
  refine ⟨ascending, ascending.filter _, fun k => ?_, fun j k hk => ?_,
    fun k j hj => (List.mem_filter.1 hj).1, fun k hk => if_neg (remaining_eq ▸ hk)⟩
  · rw [remaining_eq]
    show k ∈ members.filter _ ↔ k ∈ members ∧ (if k ∈ members then _ else []) = []
    rw [List.mem_filter, List.isEmpty_iff]
    exact and_congr_right fun hk => by rw [if_pos hk]
  · have hk' : k ∈ if j ∈ members then (g.successors j).filter (· ∈ members) else [] := hk
    split at hk'
    · next hj => exact List.mem_filter.2 ⟨hj, decide_eq_true hk'⟩
    · exact absurd hk' List.not_mem_nil

theorem draft_start (g : Graph) (members : List NodeKey) :
    (start g members).draft = Draft.start g members := by
  have remaining_eq : (start g members).remaining = members :=
    List.filter_eq_self.2 fun _ _ => decide_eq_true List.not_mem_nil
  have waiting_eq : (start g members).draft.waiting = (Draft.start g members).waiting := by
    rw [draft, remaining_eq]
    exact List.map_congr_left fun k hk => Prod.ext rfl (if_pos hk)
  exact congrArg (Draft.mk [] · []) waiting_eq

/-! ## Telling a dependent -/

theorem waitsFor_forget : (w.forget j k).waitsFor v =
    if v = j then (w.waitsFor v).filter (· ≠ k) else w.waitsFor v := by
  show Function.update w.waitsFor j _ v = _
  rw [Function.update_apply]
  split
  · next heq => rw [heq]
  · rfl

theorem mem_ready_forget : v ∈ (w.forget j k).ready ↔
    v ∈ w.ready ∨ (v = j ∧ (w.waitsFor j).filter (· ≠ k) = []) := by
  show v ∈ (if _ then Sorted.distinct (j :: w.ready) else w.ready) ↔ _
  split
  · next hempty =>
    rw [Sorted.mem_distinct, List.mem_cons, and_iff_left (List.isEmpty_iff.1 hempty), or_comm]
  · next hnot => exact (or_iff_left fun both => hnot (List.isEmpty_iff.2 both.2)).symm

/-- Taking a node off what another one waits for keeps the books right. -/
theorem Kept.forget (h : Kept w) (hj : j ∈ w.remaining) : Kept (w.forget j k) where
  ascending := h.ascending
  ready_ascending := by
    show Ascending (if _ then Sorted.distinct (j :: w.ready) else w.ready)
    split
    · exact Sorted.pairwise_distinct _
    · exact h.ready_ascending
  mem_ready := by
    intro v
    rw [mem_ready_forget, waitsFor_forget, h.mem_ready v]
    show _ ↔ v ∈ w.remaining ∧ _
    split
    · next heq =>
      subst heq
      refine ⟨fun hv => ⟨hj, ?_⟩, fun hv => .inr ⟨rfl, hv.2⟩⟩
      rcases hv with ⟨-, hempty⟩ | ⟨-, hempty⟩
      · rw [hempty]
        rfl
      · exact hempty
    · next hne => exact or_iff_left fun both => hne both.1
  mem_dependents := by
    intro i v hv
    refine h.mem_dependents i v ?_
    rw [waitsFor_forget] at hv
    split at hv
    · exact (List.mem_filter.1 hv).1
    · exact hv
  dependents_mem := h.dependents_mem
  idle := by
    intro v hv
    have hidle : w.waitsFor v = [] := h.idle v hv
    rw [waitsFor_forget, hidle]
    exact ite_self _

/-- `w'` is `w` after the nodes `js` have been told that `k` has its place. -/
structure Told (k : NodeKey) (js : List NodeKey) (w w' : Worklist) : Prop where
  kept : Kept w'
  members_eq : w'.members = w.members
  placed_eq : w'.placed = w.placed
  dropped_eq : w'.dropped = w.dropped
  waitsFor_eq : ∀ v, w'.waitsFor v =
    if v ∈ js then (w.waitsFor v).filter (· ≠ k) else w.waitsFor v

theorem Kept.told (h : Kept w) (hj : j ∈ w.members) : Told k [j] w (tell k w j) := by
  unfold tell
  split
  · next hplaced =>
    -- what has its place waits for nothing that could be taken off
    refine ⟨h, rfl, rfl, rfl, fun v => ?_⟩
    split
    · next hv =>
      obtain rfl := List.mem_singleton.1 hv
      rw [h.idle v fun hmem => (mem_remaining.1 hmem).2 hplaced]
      rfl
    · rfl
  · next hfree =>
    refine ⟨h.forget (mem_remaining.2 ⟨hj, hfree⟩), rfl, rfl, rfl, fun v => ?_⟩
    simp only [waitsFor_forget, List.mem_singleton]

theorem Kept.told_all (h : Kept w) {js : List NodeKey} (hjs : ∀ j ∈ js, j ∈ w.members) :
    Told k js w (js.foldl (tell k) w) := by
  induction js generalizing w with
  | nil => exact ⟨h, rfl, rfl, rfl, fun v => (if_neg List.not_mem_nil).symm⟩
  | cons j js ih =>
    have first := h.told (k := k) (hjs j List.mem_cons_self)
    have rest := ih first.kept fun i hi => first.members_eq.symm ▸ hjs i (List.mem_cons_of_mem j hi)
    refine ⟨rest.kept, rest.members_eq.trans first.members_eq,
      rest.placed_eq.trans first.placed_eq, rest.dropped_eq.trans first.dropped_eq, fun v => ?_⟩
    rw [List.foldl_cons, rest.waitsFor_eq, first.waitsFor_eq]
    by_cases hv : v = j <;> by_cases hmem : v ∈ js <;> simp [hv, hmem]

/-! ## Steps -/

/-- The worklist has the same ready node to place as its draft. -/
theorem Kept.ready?_draft (h : Kept w) : w.draft.ready? = w.ready.head? := by
  have mem_ready : ∀ k, k ∈ w.ready ↔ k ∈ w.draft.left ∧ w.draft.waitsFor k = [] := by
    intro k
    rw [left_draft, h.waitsFor_draft]
    exact h.mem_ready k
  have ascending := h.ascending_left
  cases hready : w.draft.ready? with
  | none =>
    cases hlist : w.ready with
    | nil => rfl
    | cons k rest =>
      obtain ⟨hk, hempty⟩ := (mem_ready k).1 (hlist ▸ List.mem_cons_self)
      exact absurd hempty (Draft.waitsFor_ne_nil ascending.nodup hready k hk)
  | some j =>
    have hj := (mem_ready j).2 (Draft.ready?_spec ascending.nodup hready)
    cases hlist : w.ready with
    | nil => exact absurd (hlist ▸ hj) List.not_mem_nil
    | cons k rest =>
      -- each of the two is below the other one
      obtain ⟨hk, hempty⟩ := (mem_ready k).1 (hlist ▸ List.mem_cons_self)
      have hle : Sorted.le j k = true := Draft.ready?_le ascending hready hk hempty
      rcases List.mem_cons.1 (hlist ▸ hj) with rfl | hj
      · rfl
      · have hlt : compare k j = .lt := (List.pairwise_cons.1 (hlist ▸ h.ready_ascending)).1 j hj
        rw [Sorted.le, Std.OrientedOrd.eq_swap (a := j) (b := k), hlt] at hle
        exact absurd hle (by decide)

/-- The search goes among all members, but it comes no further than the draft's. -/
theorem Kept.cycle?_draft (h : Kept w) (dom : Search.Domain w.draft.waitsFor w.draft.left) :
    w.cycle? g = w.draft.cycle? g := by
  have same : findCycles w.waitsFor w.remaining w.members =
      findCycles w.draft.waitsFor w.draft.left w.draft.left := by
    rw [h.waitsFor_draft, left_draft] at dom ⊢
    exact Search.findCycles_of_subset dom (fun _ hk => hk) (List.filter_subset_self _)
  rw [cycle?, same]
  rfl

/-- The first ready node leaves the list when it gets its place. -/
theorem Kept.popped (h : Kept w) {rest : List NodeKey} (hready : w.ready = k :: rest) :
    Kept { w with ready := rest, placed := w.placed ++ [k] } := by
  have remaining_iff : ∀ v, v ∈ remaining { w with ready := rest, placed := w.placed ++ [k] } ↔
      v ∈ w.remaining ∧ v ≠ k := by
    intro v
    rw [mem_remaining, mem_remaining, List.mem_append, List.mem_singleton, not_or, and_assoc]
  have ascending := h.ready_ascending
  rw [hready] at ascending
  obtain ⟨hnew, -⟩ := List.nodup_cons.1 ascending.nodup
  refine ⟨h.ascending, (List.pairwise_cons.1 ascending).2, fun v => ?_, h.mem_dependents,
    h.dependents_mem, fun v hv => ?_⟩
  · have mem_ready := h.mem_ready v
    rw [hready, List.mem_cons] at mem_ready
    rw [remaining_iff, and_right_comm, ← mem_ready]
    constructor
    · exact fun hv => ⟨.inr hv, fun heq => hnew (heq ▸ hv)⟩
    · exact fun hv => hv.1.resolve_left hv.2
  · rw [remaining_iff, not_and_not_right] at hv
    by_cases hmem : v ∈ w.remaining
    · rw [hv hmem]
      exact ((h.mem_ready k).1 (hready ▸ List.mem_cons_self)).2
    · exact h.idle v hmem

/-- Placing the first ready node is placing it in the draft. -/
theorem Kept.place (h : Kept w) {rest : List NodeKey} (hready : w.ready = k :: rest) :
    Kept (w.place k) ∧ (w.place k).members = w.members ∧ (w.place k).draft = w.draft.place k := by
  have popped := h.popped hready
  have told := popped.told_all (k := k) (h.dependents_mem k)
  have place_eq : w.place k = (w.dependents k).foldl (tell k)
      { w with ready := rest, placed := w.placed ++ [k] } := by
    rw [Worklist.place, hready, List.tail_cons]
  rw [← place_eq] at told
  have waits : ∀ v, (w.place k).waitsFor v = (w.waitsFor v).filter (· ≠ k) := by
    intro v
    rw [told.waitsFor_eq v]
    split
    · rfl
    · next hnot =>
      -- who is no dependent does not wait for it
      refine (List.filter_eq_self.2 fun i hi => decide_eq_true ?_).symm
      rintro rfl
      exact hnot (h.mem_dependents v i hi)
  refine ⟨told.kept, told.members_eq, ?_⟩
  have remaining_eq : (w.place k).remaining = w.remaining.filter (· ≠ k) := by
    rw [remaining, remaining, told.members_eq, told.placed_eq, List.filter_filter]
    refine List.filter_congr fun v _ => ?_
    simp [not_or, and_comm]
  unfold draft Draft.place
  dsimp only
  rw [told.placed_eq, told.dropped_eq, remaining_eq, List.filter_map, List.map_map]
  simp only [waits]
  rfl

/-- Giving up a dependency is giving it up in the draft. -/
theorem Kept.giveUp (h : Kept w) (hsource : source ∈ w.remaining) :
    Kept (w.giveUp source target) ∧ (w.giveUp source target).members = w.members ∧
      (w.giveUp source target).draft = w.draft.drop source target := by
  have giveUp_eq : w.giveUp source target =
      { w.forget source target with dropped := w.dropped ++ [(source, target)] } := by
    rw [Worklist.giveUp, if_pos hsource]
  have kept : Kept (w.forget source target) := h.forget hsource
  rw [giveUp_eq]
  refine ⟨⟨kept.ascending, kept.ready_ascending, kept.mem_ready, kept.mem_dependents,
    kept.dependents_mem, kept.idle⟩, rfl, ?_⟩
  have waiting_eq : w.remaining.map (fun v => (v, (w.forget source target).waitsFor v)) =
      (w.draft.drop source target).waiting := by
    rw [Draft.drop, draft, List.map_map]
    exact List.map_congr_left fun v _ => Prod.ext rfl waitsFor_forget
  exact congrArg (Draft.mk w.placed · (w.dropped ++ [(source, target)])) waiting_eq

/-- What a worklist does while there are nodes left: the first ready node, which has no place yet,
gets its place, or no node is ready and a cycle of what is left is broken. -/
inductive Regular (g : Graph) (w : Worklist) : Prop
  | place {k : NodeKey} : w.draft.ready? = some k → k ∉ w.placed → w.turn g = .place k →
      Regular g w
  | breakCycle {c : Cycle} {target : NodeKey} : w.draft.ready? = none →
      Draft.Breaks g w.draft c target → w.turn g = .breakCycle c target → Regular g w

theorem Kept.regular (h : Kept w) (dom : Search.Domain w.draft.waitsFor w.draft.left)
    (unfinished : w.draft.left ≠ []) : Regular g w := by
  have head_eq := h.ready?_draft
  cases hlist : w.ready with
  | cons k rest =>
    rw [hlist] at head_eq
    have hk := (h.mem_ready k).1 (hlist ▸ List.mem_cons_self)
    have hfree := (mem_remaining.1 hk.1).2
    refine .place head_eq hfree ?_
    unfold turn
    rw [hlist]
    exact if_neg hfree
  | nil =>
    rw [hlist] at head_eq
    obtain ⟨c, target, breaks⟩ := Draft.exists_breaks (g := g) dom unfinished
      (Draft.waitsFor_ne_nil h.ascending_left.nodup head_eq)
    refine .breakCycle head_eq breaks ?_
    unfold turn
    rw [hlist]
    dsimp only
    rw [h.cycle?_draft dom, breaks.cycle_eq]
    dsimp only
    rw [breaks.successor_eq]

/-- A step of a worklist is the step of its draft. -/
theorem Kept.step (h : Kept w) (dom : Search.Domain w.draft.waitsFor w.draft.left)
    (unfinished : w.draft.left ≠ []) :
    Kept (w.step g) ∧ (w.step g).members = w.members ∧ (w.step g).draft = w.draft.step g := by
  have head_eq := h.ready?_draft
  unfold Worklist.step
  cases h.regular (g := g) dom unfinished with
  | @place k hready _ hturn =>
    rw [hturn, Draft.step_of_ready hready]
    obtain ⟨rest, hlist⟩ := List.head?_eq_some_iff.1 (head_eq.symm.trans hready)
    exact h.place hlist
  | @breakCycle c target hready breaks hturn =>
    rw [hturn, breaks.step_eq hready]
    have hsource := breaks.mem_left breaks.link.left_mem
    rw [left_draft] at hsource
    exact h.giveUp hsource

/-! ## The run -/

/-- A worklist has as many places as members just when its draft has nothing left. -/
theorem finished_iff (sound : Draft.Sound g w.members w.draft) :
    w.members.length ≤ w.placed.length ↔ w.draft.waiting.isEmpty = true := by
  have count := sound.perm.length_eq
  rw [List.length_append, Draft.left, List.length_map] at count
  have count' : w.placed.length + w.draft.waiting.length = w.members.length := count
  rw [List.isEmpty_iff, ← List.length_eq_zero_iff]
  omega

/-- A run of a worklist is the run of its draft. -/
theorem Kept.run (h : Kept w) (hg : g.WellFormed) (sound : Draft.Sound g w.members w.draft)
    (n : Nat) : Kept (run g n w) ∧ (run g n w).draft = Draft.run g n w.draft := by
  have nodup := h.ascending.nodup
  induction n generalizing w with
  | zero => exact ⟨h, rfl⟩
  | succ n ih =>
    unfold Worklist.run Draft.run
    split
    · next hdone =>
      rw [if_pos ((finished_iff sound).1 hdone)]
      exact ⟨h, rfl⟩
    · next hdone =>
      have unfinished : ¬ w.draft.waiting.isEmpty = true :=
        fun hempty => hdone ((finished_iff sound).2 hempty)
      have dom := sound.domain hg nodup
      have left_ne := Draft.left_ne_nil unfinished
      obtain ⟨kept, members_eq, draft_eq⟩ := h.step (g := g) dom left_ne
      have sound' : Draft.Sound g (w.step g).members (w.step g).draft := by
        rw [members_eq, draft_eq]
        exact sound.move hg nodup (Draft.move_step dom left_ne)
      rw [if_neg unfinished, ← draft_eq]
      exact ih kept sound' kept.ascending.nodup

/-- From the start, a worklist goes the steps of the draft, and its books stay right. -/
theorem run_start (hg : g.WellFormed) (ascending : Ascending members) (n : Nat) :
    Kept (run g n (start g members)) ∧
      (run g n (start g members)).draft = Draft.run g n (Draft.start g members) := by
  have draft_eq := draft_start g members
  have sound : Draft.Sound g (start g members).members (start g members).draft := by
    rw [draft_eq]
    exact Draft.sound_start ascending.nodup
  rw [← draft_eq]
  exact (kept_start ascending).run hg sound n

end Worklist

end LayerGraph
