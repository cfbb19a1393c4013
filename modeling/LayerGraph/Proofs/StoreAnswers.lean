import LayerGraph.Query

/-!
# Stores that answer

A store answers some calls from a stored graph when none of these calls meets a fault, and the store
can be opened and looked into. Asking does not change the graph that a store keeps and takes no fault
away or adds one, so the next call is answered from the same graph. A query of several calls is then
an answer about a single graph.

Main statements:
1. `Answers.ask`: a call is answered, and the store answers on.
2. `Answers.impact`, `Answers.connection`, `Answers.outcome`: what queries answer is a function of
   the stored graph.
-/

namespace LayerGraph

namespace GraphStore

/-- The store answers the given calls from a stored graph. -/
structure Answers (s : GraphStore) (disk : Disk) (timeout : Duration) (calls : List StoreCall)
    (m : StoredGraph) : Prop where
  faultless : ∀ call ∈ calls, s.callFault? timeout call = none
  connects : ∃ s' disk', s.connect disk timeout = (.ok m, s', disk') ∧ s'.lookFault? disk' = none

variable {α : Type} {s s' : GraphStore} {disk disk' : Disk} {timeout : Duration}
  {calls : List StoreCall} {m : StoredGraph} {limits : QueryLimits}

/-! ## Opening -/

/-- A store that has been opened differs from what it was by its place at most, and keeps the graph
that it gives. -/
theorem cases_of_connect (h : s.connect disk timeout = (.ok m, s', disk')) :
    s' = { s with place := s'.place } ∧
      (s'.place = .nowhere ∧ m = {} ∨ s'.place = .memory m ∨
        ∃ name o, s'.place = .opened name o ∧ o.graph = m) := by
  cases place : s.place with
  | nowhere =>
    simp only [connect, place] at h
    cases h
    exact ⟨rfl, .inl ⟨place, rfl⟩⟩
  | memory kept =>
    simp only [connect, place] at h
    cases h
    exact ⟨rfl, .inr (.inl place)⟩
  | refused name fault =>
    simp only [connect, place] at h
    cases h
  | opened name o =>
    simp only [connect, place] at h
    cases h
    exact ⟨rfl, .inr (.inr ⟨name, o, place, rfl⟩)⟩
  | database name l =>
    simp only [connect, place] at h
    split at h
    · cases h
      exact ⟨rfl, .inr (.inr ⟨name, _, rfl, rfl⟩)⟩
    · cases h

/-- Opening a store takes no fault away and adds none. -/
theorem callFault?_of_connect (h : s.connect disk timeout = (.ok m, s', disk')) (after : Duration)
    (call : StoreCall) : s'.callFault? after call = s.callFault? after call := by
  rw [(cases_of_connect h).1]
  rfl

/-- A store that has been opened is opened once more with the same graph. -/
theorem connect_of_connect (h : s.connect disk timeout = (.ok m, s', disk')) (after : Duration) :
    s'.connect disk' after = (.ok m, s', disk') := by
  obtain ⟨place, rfl⟩ | place | ⟨name, o, place, rfl⟩ := (cases_of_connect h).2
  · simp only [connect, place]
  · simp only [connect, place]
  · simp only [connect, place]

theorem Answers.of_connect (h : s.Answers disk timeout calls m)
    (opens : s.connect disk timeout = (.ok m, s', disk')) (looks : s'.lookFault? disk' = none) :
    s'.Answers disk' timeout calls m where
  faultless call hcall := (callFault?_of_connect opens timeout call).trans (h.faultless call hcall)
  connects := ⟨s', disk', connect_of_connect opens timeout, looks⟩

/-! ## Asking -/

/-- A call is answered from the stored graph, and the store answers on from it. -/
theorem Answers.ask (h : s.Answers disk timeout calls m) (call : StoreCall) (hcall : call ∈ calls)
    (answer : StoredGraph → α) : ∃ s' disk', s.ask disk timeout call answer =
      (.ok (answer m), s', disk') ∧ s'.Answers disk' timeout calls m := by
  obtain ⟨s', disk', opens, looks⟩ := h.connects
  refine ⟨s', disk', ?_, h.of_connect opens looks⟩
  unfold GraphStore.ask
  rw [h.faultless call hcall, opens]
  simp only [looks]

theorem Answers.query (h : s.Answers disk limits.timeout calls m) (call : StoreCall)
    (hping : .ping ∈ calls) (hcall : call ∈ calls) (answer : StoredGraph → α) :
    ∃ s' disk', s.query disk limits call answer = (.ok (answer m), s', disk') ∧
      s'.Answers disk' limits.timeout calls m := by
  obtain ⟨s₁, disk₁, pinged, h₁⟩ := h.ask .ping hping fun _ => ()
  obtain ⟨s₂, disk₂, asked, h₂⟩ := h₁.ask call hcall answer
  refine ⟨s₂, disk₂, ?_, h₂⟩
  unfold GraphStore.query
  rw [pinged]
  simp only [asked]
  rfl

/-- A store in memory that meets no faults answers from what it keeps. -/
theorem answers_memory (m : StoredGraph) (disk : Disk) (timeout : Duration)
    (calls : List StoreCall) : Answers { place := .memory m } disk timeout calls m where
  faultless _ _ := rfl
  connects := ⟨_, _, rfl, rfl⟩

/-! ## Queries -/

/-- The impact of a key is found in two calls at most, both about the same stored graph. -/
theorem Answers.impact
    (h : s.Answers disk limits.timeout [.ping, .dependentsWithin, .containsNode] m) (k : NodeKey)
    (maxDepth : Nat) :
    (s.impact disk limits k maxDepth).1 = .available (Query.impact limits m k maxDepth) := by
  obtain ⟨s₁, disk₁, first, h₁⟩ := h.query .dependentsWithin (by decide) (by decide)
    (·.dependentsWithin k (Query.clamp maxDepth limits.maxDepth))
  obtain ⟨s₂, disk₂, second, -⟩ := h₁.query .containsNode (by decide) (by decide)
    fun m => Query.impactOf k (m.contains k) (Query.clamp maxDepth limits.maxDepth) []
  unfold GraphStore.impact Query.impact
  dsimp only
  rw [first]
  cases rows : m.dependentsWithin k (Query.clamp maxDepth limits.maxDepth) with
  | nil =>
    dsimp only
    rw [second]
    rfl
  | cons row rest => rfl

/-- The connection of two keys is that of the stored graph, if it has one. -/
theorem Answers.connection (h : s.Answers disk limits.timeout [.ping, .shortestPaths] m)
    (a b : NodeKey) (maxHops : Nat) :
    (s.connection disk limits a b maxHops).1 =
      (Query.connection? limits m a b maxHops).elim .noPath .available := by
  obtain ⟨s₁, disk₁, asked, -⟩ := h.query .shortestPaths (by decide) (by decide)
    fun m => Query.connection? limits m a b maxHops
  unfold GraphStore.connection
  rw [asked]
  cases Query.connection? limits m a b maxHops with
  | none => rfl
  | some c => rfl

/-- A query that always has an answer gives that of the stored graph. -/
theorem Answers.outcome (h : s.Answers disk limits.timeout calls m) (call : StoreCall)
    (hping : .ping ∈ calls) (hcall : call ∈ calls) (answer : StoredGraph → α) :
    (GraphStore.outcome (s.query disk limits call answer)).1 = .available (answer m) := by
  obtain ⟨s₁, disk₁, asked, -⟩ := h.query call hping hcall answer
  rw [asked]
  rfl

/-- The circles of a type are those of the stored graph. -/
theorem Answers.cycles (h : s.Answers disk limits.timeout [.ping, .typedEdges] m)
    (type : NodeType) (maxLength : Nat) :
    (s.cycles disk limits type maxLength).1 =
      .available (Query.cycles limits m type maxLength) :=
  h.outcome .typedEdges (by decide) (by decide) fun m => Query.cycles limits m type maxLength

/-- The busiest nodes are those of the stored graph. -/
theorem Answers.hubs (h : s.Answers disk limits.timeout calls m) (hping : .ping ∈ calls)
    (hcall : .degreeCounts ∈ calls) (least : Nat) :
    (s.hubs disk limits least).1 = .available (Query.hubs m least) :=
  h.outcome .degreeCounts hping hcall fun m => Query.hubs m least

/-- What nothing uses is what nothing uses in the stored graph. -/
theorem Answers.deadCode (h : s.Answers disk limits.timeout calls m) (hping : .ping ∈ calls)
    (hcall : .nodesWithoutIncoming ∈ calls) (prefixes : Option (List String)) :
    (s.deadCode disk limits prefixes).1 = .available (Query.deadCode limits m prefixes) :=
  h.outcome .nodesWithoutIncoming hping hcall fun m => Query.deadCode limits m prefixes

end GraphStore

end LayerGraph
