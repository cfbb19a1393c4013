import LayerGraph.Proofs.CarriedOrders
import LayerGraph.Proofs.RecordOrder

/-!
# What a build leaves in a store in memory

A build reads the records of a project kind by kind, and writes the orders of the graph back onto
them. Some entities may refuse to be written. In the end each record with a name carries its place
and its layer, unless its entity refuses; all else in the store is as it was. The report accounts for
each assignment.

Main statements:
1. `readProject_memory`: a build reads the records of the project.
2. `Wrote.write`: what writing one more assignment does.
3. `build_outcome`: the outcome of a build.
-/

namespace LayerGraph

variable {s t : MemoryStore} {project other : String} {rs : List EntityRecord} {disk : Disk}
  {done : List Assignment} {a : Assignment} {p : WriteBack.Progress}

/-! ## Reading -/

/-- The records in the order in which a project is read. -/
def byKind (rs : List EntityRecord) : List EntityRecord :=
  EntityKind.all.flatMap fun kind => rs.filter (·.kind = kind)

/-- Taking a list apart by a mark and putting the parts one behind the other keeps its elements. -/
theorem flatMap_filter_perm {α κ : Type} [DecidableEq κ] (mark : α → κ) {ks : List κ}
    (distinct : ks.Nodup) (xs : List α) (marked : ∀ x ∈ xs, mark x ∈ ks) :
    (ks.flatMap fun k => xs.filter (mark · = k)).Perm xs := by
  induction ks generalizing xs with
  | nil => rw [List.eq_nil_iff_forall_not_mem.2 fun x hx => List.not_mem_nil (marked x hx)]; rfl
  | cons k rest ih =>
    obtain ⟨hk, distinct⟩ := List.nodup_cons.1 distinct
    -- the other marks take nothing of the first part
    have others : rest.flatMap (fun j => xs.filter (mark · = j)) =
        rest.flatMap fun j => (xs.filter fun x => !decide (mark x = k)).filter (mark · = j) := by
      refine List.flatMap_congr fun j hj => ?_
      rw [List.filter_filter]
      refine List.filter_congr fun x _ => ?_
      by_cases hx : mark x = j
      · have hne : j ≠ k := fun e => hk (e ▸ hj)
        simp [hx, hne]
      · simp [hx]
    rw [List.flatMap_cons, others]
    refine ((ih distinct _ fun x hx => ?_).append_left _).trans (List.filter_append_perm _ xs)
    obtain ⟨hx, hne⟩ := List.mem_filter.1 hx
    exact (List.mem_cons.1 (marked x hx)).resolve_left (by simpa using hne)

theorem byKind_perm (rs : List EntityRecord) : (byKind rs).Perm rs := by
  have every : ∀ kind : EntityKind, kind ∈ EntityKind.all := by
    intro kind
    cases kind <;> decide
  exact flatMap_filter_perm EntityRecord.kind (by decide) rs fun r _ => every r.kind

theorem readProject_memory (hrs : s.records? project = some rs) (n : Nat) :
    (RecordStore.memory s).readProject disk n project = (.ok (byKind rs), .memory s) := by
  have one : ∀ kind, (RecordStore.memory s).listLoaded project kind =
      .ok (rs.filter (·.kind = kind)) := by
    intro kind
    simp [RecordStore.listLoaded, RefusingStore.list, MemoryStore.list, hrs]
  have all : EntityKind.all.mapM ((RecordStore.memory s).listLoaded project ·) =
      .ok (EntityKind.all.map fun kind => rs.filter (·.kind = kind)) := by
    rw [funext one]
    rfl
  unfold RecordStore.readProject RecordStore.readBy RecordStore.load
  dsimp only
  rw [all]
  rfl

/-! ## Writing -/

namespace MemoryStore

/-- The keys of the entities that refuse to be written. -/
def refusedKeys (s : MemoryStore) : List NodeKey :=
  s.failingWrites.map fun (kind, name) => ⟨kind.nodeType, name⟩

theorem mem_refusedKeys {kind : EntityKind} {name : String} :
    ⟨kind.nodeType, name⟩ ∈ s.refusedKeys ↔ (kind, name) ∈ s.failingWrites := by
  rw [refusedKeys, List.mem_map]
  constructor
  · rintro ⟨⟨kind', name'⟩, hmem, heq⟩
    obtain ⟨htype, rfl⟩ := NodeKey.mk.inj heq
    obtain rfl := EntityKind.nodeType_injective htype
    exact hmem
  · exact fun hmem => ⟨_, hmem, rfl⟩

theorem any_of_records? (h : s.records? project = some rs) :
    s.projects.any (·.1 = project) = true := by
  by_contra hnone
  have absent : s.projects.lookup project = none := by
    rw [List.lookup_eq_none_iff]
    intro entry hentry
    have hne : entry.1 ≠ project := fun e => hnone (List.any_eq_true.2 ⟨entry, hentry, by simpa⟩)
    simpa using hne.symm
  rw [records?, absent] at h
  cases h

theorem insertProject_of_records? (h : s.records? project = some rs) (rs' : List EntityRecord) :
    s.insertProject project rs' = { s with
      projects := s.projects.map fun (p, rs) => if p = project then (p, rs') else (p, rs) } := by
  rw [insertProject, if_pos (any_of_records? h)]

/-- Only the project itself changes. -/
theorem records?_insertProject (h : s.records? project = some rs) (rs' : List EntityRecord) :
    (s.insertProject project rs').records? other =
      if other = project then some rs' else s.records? other := by
  have go : ∀ entries : List (String × List EntityRecord),
      entries.any (·.1 = project) = true ∨ other ≠ project →
      (entries.map fun (p, rs) => if p = project then (p, rs') else (p, rs)).lookup other =
        if other = project then some rs' else entries.lookup other := by
    intro entries
    induction entries with
    | nil =>
      intro hor
      have hne : other ≠ project := hor.resolve_left (by simp)
      simp [hne]
    | cons entry rest ih =>
      obtain ⟨p, old⟩ := entry
      intro hor
      by_cases hp : p = project
      · subst hp
        by_cases ho : other = p
        · simp [ho]
        · have head : (other == p) = false := by simpa using ho
          simpa [List.lookup_cons, head, ho] using ih (.inr ho)
      · by_cases ho : other = p
        · subst ho
          simp [hp]
        · have head : (other == p) = false := by simpa using ho
          have hor' : rest.any (·.1 = project) = true ∨ other ≠ project := by
            simpa [hp] using hor
          simpa [List.lookup_cons, head, hp] using ih hor'
  rw [insertProject_of_records? h]
  exact go s.projects (.inl (any_of_records? h))

theorem names_insertProject (h : s.records? project = some rs) (rs' : List EntityRecord) :
    (s.insertProject project rs').projects.map Prod.fst = s.projects.map Prod.fst := by
  rw [insertProject_of_records? h]
  dsimp only
  rw [List.map_map]
  refine List.map_congr_left fun entry _ => ?_
  obtain ⟨p, old⟩ := entry
  dsimp only [Function.comp]
  split <;> rfl

/-- An assignment that has records and is not refused goes onto these. -/
theorem exists_writeOrder {kind : EntityKind} (hrs : s.records? project = some rs)
    (hkind : EntityKind.ofNodeType? a.key.type = some kind) (hmem : ∃ r ∈ rs, r.key = a.key)
    (accepts : (kind, a.key.name) ∉ s.failingWrites) :
    ∃ t, s.writeOrder project kind a.key.name a.order a.layer = .ok t ∧
      t.records? project = some (rs.map (·.carry a)) ∧
      (∀ other, other ≠ project → t.records? other = s.records? other) ∧
      t.projects.map Prod.fst = s.projects.map Prod.fst ∧ t.failingWrites = s.failingWrites := by
  refine ⟨{ s.insertProject project (rs.map (·.carry a)) with writeCount := s.writeCount + 1 },
    ?_, ?_, fun other hother => ?_, names_insertProject hrs _, ?_⟩
  · rw [writeOrder, if_neg accepts, hrs]
    dsimp only
    rw [EntityRecord.writeOrderOnto_eq hkind hmem]
  · exact (records?_insertProject hrs _).trans (if_pos rfl)
  · exact (records?_insertProject hrs _).trans (if_neg hother)
  · rw [insertProject_of_records? hrs]

end MemoryStore

/-- What is said about an assignment whose entity refuses. -/
def refusal (a : Assignment) : BuildWarning :=
  .persistenceWriteFailure a.key ("record store error: write rejected for " ++ a.key.text)

/-- The given assignments have been written: those of entities that do not refuse are on the records
of the project, all else in the store is as it was, and each assignment is counted as written or
noted as skipped. -/
structure Wrote (s : MemoryStore) (project : String) (rs : List EntityRecord)
    (done : List Assignment) (p : WriteBack.Progress) (t : MemoryStore) : Prop where
  store : p.store = .memory t
  records : t.records? project =
    some (rs.map (·.carryAll (done.filter (·.key ∉ s.refusedKeys))))
  others : ∀ other, other ≠ project → t.records? other = s.records? other
  names : t.projects.map Prod.fst = s.projects.map Prod.fst
  failingWrites : t.failingWrites = s.failingWrites
  written : p.written = done.countP (·.key ∉ s.refusedKeys)
  skipped : p.skipped = (done.filter (·.key ∈ s.refusedKeys)).map refusal

theorem message_writeRejected {kind : EntityKind} (hkind : kind.nodeType = a.key.type) :
    (Error.refused (.writeRejected kind a.key.name)).message =
      "record store error: write rejected for " ++ a.key.text := by
  have front : "record store error: write rejected for " =
      "record store error: " ++ "write rejected for " := by decide
  rw [front, NodeKey.text, ← hkind]
  show "record store error: " ++ ("write rejected for " ++ kind.nodeType.name ++ ":" ++ a.key.name) = _
  simp only [String.append_assoc]

/-- Writing one more assignment. -/
theorem Wrote.write (disk : Disk) (h : Wrote s project rs done p t) (hlocal : a.key.isExternal = false)
    (hmem : ∃ r ∈ rs, r.key = a.key) :
    ∃ t', Wrote s project rs (done ++ [a]) (p.write disk project a) t' := by
  obtain ⟨kind, hkind⟩ := EntityKind.exists_ofNodeType? hlocal
  have htype := EntityKind.ofNodeType?_eq_some_iff.1 hkind
  have hkey : ⟨kind.nodeType, a.key.name⟩ = a.key := by rw [htype]
  have refuses : (kind, a.key.name) ∈ t.failingWrites ↔ a.key ∈ s.refusedKeys := by
    rw [h.failingWrites, ← MemoryStore.mem_refusedKeys, hkey]
  by_cases hrefused : a.key ∈ s.refusedKeys
  · -- the store stays as it is
    have hwrite : p.write disk project a = { p with skipped := p.skipped ++ [refusal a] } := by
      unfold WriteBack.Progress.write RecordStore.writeOrder RecordStore.load
      rw [hkind, h.store]
      dsimp only
      rw [RefusingStore.writeOrder, MemoryStore.writeOrder, if_pos (refuses.2 hrefused)]
      dsimp only [Except.map]
      rw [refusal, ← message_writeRejected htype]
    refine ⟨t, ?_⟩
    rw [hwrite]
    constructor
    · exact h.store
    · simpa [List.filter_append, hrefused] using h.records
    · exact h.others
    · exact h.names
    · exact h.failingWrites
    · simpa [List.countP_append, hrefused] using h.written
    · simp [List.filter_append, hrefused, h.skipped]
  · -- the records of the entity carry the assignment
    have hmem' : ∃ r ∈ rs.map (·.carryAll (done.filter (·.key ∉ s.refusedKeys))), r.key = a.key := by
      obtain ⟨r, hr, hr_key⟩ := hmem
      exact ⟨_, List.mem_map_of_mem hr, (EntityRecord.key_carryAll _ _).trans hr_key⟩
    obtain ⟨t', hwrite, hrecords, hothers, hnames, hfailing⟩ :=
      MemoryStore.exists_writeOrder h.records hkind hmem' (mt refuses.1 hrefused)
    have hprogress : p.write disk project a =
        { p with store := .memory t', written := p.written + 1 } := by
      unfold WriteBack.Progress.write RecordStore.writeOrder RecordStore.load
      rw [hkind, h.store]
      dsimp only
      rw [RefusingStore.writeOrder, hwrite]
      rfl
    refine ⟨t', ?_⟩
    rw [hprogress]
    constructor
    · rfl
    · rw [hrecords, List.map_map, List.filter_append]
      simp [hrefused, EntityRecord.carryAll_concat]
    · exact fun other hother => (hothers other hother).trans (h.others other hother)
    · exact hnames.trans h.names
    · exact hfailing.trans h.failingWrites
    · simp [List.countP_append, hrefused, h.written]
    · simpa [List.filter_append, hrefused] using h.skipped

theorem Wrote.foldl_write (disk : Disk) (h : Wrote s project rs done p t) {as : List Assignment}
    (hlocal : ∀ a ∈ as, a.key.isExternal = false) (hmem : ∀ a ∈ as, ∃ r ∈ rs, r.key = a.key) :
    ∃ t', Wrote s project rs (done ++ as) (as.foldl (WriteBack.Progress.write disk project) p) t' := by
  induction as generalizing done p t with
  | nil => exact ⟨t, by simpa using h⟩
  | cons a rest ih =>
    obtain ⟨t', h'⟩ := h.write disk (hlocal a List.mem_cons_self)
      (hmem a List.mem_cons_self)
    rw [List.append_cons]
    exact ih h' (fun b hb => hlocal b (List.mem_cons_of_mem a hb))
      fun b hb => hmem b (List.mem_cons_of_mem a hb)

/-- A build reports the writes as they went. -/
theorem WriteBack.exists_run {g : Graph} {store store' : RecordStore} {failure : Option Error}
    {disk' : Disk}
    (hwrites : g.assignments.foldl (WriteBack.Progress.write disk project) { store } = p)
    (hsave : p.store.save disk = (failure, store', disk')) :
    ∃ report, WriteBack.run disk project g false store = (report, store', disk') ∧
      report.assignments = g.assignments ∧ report.written = p.written ∧
      report.skipped = p.skipped ∧ report.saveError = failure.map Error.message := by
  refine ⟨⟨g.assignments, p.written, p.skipped, false, failure.map Error.message⟩, ?_, rfl, rfl,
    rfl, rfl⟩
  rw [WriteBack.run, if_neg Bool.false_ne_true, hwrites]
  dsimp only
  rw [hsave]

/-! ## The outcome of a build -/

/-- What a record is after a build: a named one of an entity that does not refuse carries its place
and its layer, any other is as it was. -/
structure WrittenBack (o : MigrationOrder) (failing : List (EntityKind × String))
    (r r' : EntityRecord) : Prop where
  written : r.isNamed = true → (r.kind, Text.trim r.name) ∉ failing →
    ∃ i : Nat, o.position? r.key = some i ∧ r' = r.withOrder i r.kind.nodeType.layer
  kept : r.isNamed = false ∨ (r.kind, Text.trim r.name) ∈ failing → r' = r

/-- What came of writing the order of a graph back onto the records of a project: the store holds
the same projects, each with the same records in the same order but for the places and layers of
this one, and the report accounts for each entity. -/
structure BuildOutcome (s : MemoryStore) (project : String) (rs : List EntityRecord) (g : Graph)
    (report : WriteBackReport) (t : MemoryStore) : Prop where
  records : ∃ rs', t.records? project = some rs' ∧
    List.Forall₂ (WrittenBack (MigrationOrder.ofGraph g) s.failingWrites) rs rs'
  others : ∀ other, other ≠ project → t.records? other = s.records? other
  names : t.projects.map Prod.fst = s.projects.map Prod.fst
  assigned : ∀ k, k ∈ report.assignments.map Assignment.key ↔ k ∈ g.keys ∧ k.isExternal = false
  assigned_once : (report.assignments.map Assignment.key).Nodup
  placed : ∀ a ∈ report.assignments, a.layer = a.key.layer ∧
    ∃ i : Nat, (MigrationOrder.ofGraph g).position? a.key = some i ∧ a.order = i
  ascending : report.assignments.Pairwise fun a b => a.order < b.order
  written : report.written = report.assignments.countP (·.key ∉ s.refusedKeys)
  skipped : report.skipped = (report.assignments.filter (·.key ∈ s.refusedKeys)).map refusal
  total : report.written + report.skipped.length = report.assignments.length

theorem writtenBack_carryAll {r : EntityRecord} (hr : r ∈ rs) :
    WrittenBack (MigrationOrder.ofGraph (Build.ofRecords rs).graph) s.failingWrites r
      (r.carryAll ((Build.ofRecords rs).graph.ordered.assignments.filter
        (·.key ∉ s.refusedKeys))) := by
  have hg := (Build.reachable_ofRecords rs).wellFormed
  have refuses : (r.kind, Text.trim r.name) ∈ s.failingWrites ↔ r.key ∈ s.refusedKeys :=
    MemoryStore.mem_refusedKeys.symm
  constructor
  · intro hnamed hnot
    obtain ⟨a, ha, hkey⟩ := Build.exists_assignment ⟨r, hr, hnamed, rfl⟩
    obtain ⟨-, -, hlayer, i, hi, horder⟩ := (Graph.mem_assignments hg).1 ha
    have distinct : (((Build.ofRecords rs).graph.ordered.assignments.filter
        (·.key ∉ s.refusedKeys)).map Assignment.key).Nodup :=
      hg.ordered.nodup_keys_assignments.sublist (List.filter_sublist.map _)
    have hlands : a.key ∉ s.refusedKeys := by rwa [hkey, ← refuses]
    have hmem : a ∈ (Build.ofRecords rs).graph.ordered.assignments.filter
        (·.key ∉ s.refusedKeys) := List.mem_filter.2 ⟨ha, decide_eq_true hlands⟩
    refine ⟨i, by rw [← hkey, hi], ?_⟩
    rw [EntityRecord.carryAll_of_mem distinct hmem hkey.symm, horder, hlayer, hkey]
    rfl
  · intro hor
    refine EntityRecord.carryAll_of_not_mem fun a ha heq => ?_
    obtain ⟨ha, hlands⟩ := List.mem_filter.1 ha
    rcases hor with hunnamed | hrefused
    · exact Build.ne_of_not_named hunnamed (Build.declares_of_mem_assignments ha) heq
    · exact of_decide_eq_true hlands (heq ▸ refuses.1 hrefused)

/-- A build writes back what it has read, whether or not the graph is copied. -/
theorem Workspace.exists_build {w w' : Workspace} {ordered : OrderedGraph} {n : Nat}
    (h : w.buildGraph n project = (.ok ordered, w')) (copy : Option (SyncLimits × String)) :
    ∃ sync w'', w.build n project false copy =
        (.ok ⟨project, ordered, (w'.writeBack project ordered.graph false).1, sync⟩, w'') ∧
      w''.records = (w'.writeBack project ordered.graph false).2.records := by
  unfold Workspace.build
  rw [h]
  rcases copy with _ | ⟨limits, run⟩
  · exact ⟨_, _, rfl, rfl⟩
  · exact ⟨_, _, rfl, rfl⟩

/-- Writing the order of a graph back that was built from the same records, in whatever order they
were read. -/
theorem exists_writeBack {w : Workspace} {read : List EntityRecord} (hw : w.records = .memory s)
    (hrs : s.records? project = some rs) (hread : read.Perm rs) :
    ∃ (report : WriteBackReport) (t : MemoryStore),
      w.writeBack project (Build.ofRecords read).graph.ordered false =
        (report, { w with records := .memory t }) ∧
      BuildOutcome s project rs (Build.ofRecords read).graph report t := by
  have hg := (Build.reachable_ofRecords read).wellFormed
  have hstart : Wrote s project rs [] { store := w.records } s :=
    ⟨hw, by simpa [EntityRecord.carryAll] using hrs, fun _ _ => rfl, rfl, rfl, rfl, rfl⟩
  have hmem : ∀ a ∈ (Build.ofRecords read).graph.ordered.assignments,
      ∃ r ∈ rs, r.key = a.key := by
    intro a ha
    obtain ⟨r, hr, -, hkey⟩ := Build.declares_of_mem_assignments ha
    exact ⟨r, hread.mem_iff.1 hr, hkey⟩
  obtain ⟨t, hwrote⟩ := hstart.foldl_write w.disk
    (fun a ha => (Build.declares_of_mem_assignments ha).not_external) hmem
  rw [List.nil_append] at hwrote
  have saved : (RecordStore.memory t).save w.disk = (none, .memory t.save, w.disk) := rfl
  obtain ⟨report, hrun, hassignments, hwritten, hskipped, -⟩ :=
    WriteBack.exists_run (g := (Build.ofRecords read).graph.ordered) rfl (hwrote.store ▸ saved)
  refine ⟨report, t.save, by rw [Workspace.writeBack, hrun], ?_⟩
  constructor
  · refine ⟨_, hwrote.records, List.forall₂_map_right_iff.2 ?_⟩
    exact List.forall₂_same.2 fun r hr => writtenBack_carryAll (hread.mem_iff.2 hr)
  · exact hwrote.others
  · exact hwrote.names
  · intro k
    rw [hassignments, ← Build.declares_iff]
    constructor
    · intro hk
      obtain ⟨a, ha, rfl⟩ := List.mem_map.1 hk
      exact Build.declares_of_mem_assignments ha
    · intro hk
      obtain ⟨a, ha, rfl⟩ := Build.exists_assignment hk
      exact List.mem_map_of_mem ha
  · rw [hassignments]
    exact hg.ordered.nodup_keys_assignments
  · intro a ha
    rw [hassignments] at ha
    obtain ⟨-, -, hlayer, hplace⟩ := (Graph.mem_assignments hg).1 ha
    exact ⟨hlayer, hplace⟩
  · rw [hassignments]
    exact Graph.pairwise_assignments hg
  · rw [hwritten, hassignments]
    exact hwrote.written
  · rw [hskipped, hassignments]
    exact hwrote.skipped
  · rw [hwritten, hskipped, hassignments, hwrote.written, hwrote.skipped, List.length_map,
      ← List.countP_eq_length_filter, List.length_eq_countP_add_countP (·.key ∉ s.refusedKeys)]
    simp

theorem graph_ofBuild (out : BuildOutput) : (OrderedGraph.ofBuild out).graph = out.graph.ordered :=
  rfl

theorem graph_output (s : RecordStore) (project : String) (rs : List EntityRecord) :
    (s.output project rs).graph = (Build.ofRecords rs).graph :=
  rfl

/-- A build of a project in memory succeeds, and has its outcome for the graph of the records it
reads, whichever entities refuse. -/
theorem build_outcome {w : Workspace} (hw : w.records = .memory s)
    (hrs : s.records? project = some rs) (n : Nat) (copy : Option (SyncLimits × String)) :
    ∃ (report : BuildReport) (w' : Workspace) (t : MemoryStore),
      w.build n project false copy = (.ok report, w') ∧ w'.records = .memory t ∧
      report.ordered.graph = (Build.ofRecords (byKind rs)).graph.ordered ∧
      BuildOutcome s project rs (Build.ofRecords (byKind rs)).graph report.writeBack t := by
  have hread : w.buildGraph n project = (.ok (.ofBuild (Build.ofRecords (byKind rs))), w) := by
    unfold Workspace.buildGraph RecordStore.buildGraph
    rw [hw, readProject_memory hrs]
    have same : ({ w with records := .memory s } : Workspace) = w := by rw [← hw]
    exact congrArg (Prod.mk (Except.ok (OrderedGraph.ofBuild (Build.ofRecords (byKind rs))))) same
  obtain ⟨sync, w', hbuild, hrecords⟩ := w.exists_build hread copy
  obtain ⟨report, t, hback, outcome⟩ := exists_writeBack hw hrs (byKind_perm rs)
  rw [graph_ofBuild, hback] at hbuild hrecords
  exact ⟨_, w', t, hbuild, hrecords, rfl, outcome⟩

/-- Two projects; in the first one a table stands twice, once with blanks around its name, a record
has no name, and a class refuses to be written. -/
def refusingStore : MemoryStore where
  projects := [
    ("shop", [
      { kind := .table, name := "T" },
      { kind := .classDef, name := "A", usesTables := ["T"], order := some 7 },
      { kind := .table, name := " T ", usesTables := ["Gone"] },
      { kind := .page, name := " ", order := some 3 }]),
    ("other", [{ kind := .table, name := "T" }])]
  failingWrites := [(.classDef, "A")]

/-- Both records of the table carry one place, the two other ones stay as they were, and so does the
other project. -/
theorem build_outcome_refusingStore :
    ∃ (report : BuildReport) (w' : Workspace) (t : MemoryStore) (table again : EntityRecord),
    Workspace.build { records := .memory refusingStore, graphStore := { place := .nowhere } } 2
      "shop" false none = (.ok report, w') ∧
    w'.records = .memory t ∧
    t.records? "shop" = some [table,
      { kind := .classDef, name := "A", usesTables := ["T"], order := some 7 }, again,
      { kind := .page, name := " ", order := some 3 }] ∧
    table.order.isSome ∧ table.order = again.order ∧ again.usesTables = ["Gone"] ∧
    t.records? "other" = some [{ kind := .table, name := "T" }] := by
  have hrs : refusingStore.records? "shop" = some _ := rfl
  obtain ⟨report, w', t, hbuild, hrecords, -, outcome⟩ :=
    build_outcome (w := { records := .memory refusingStore, graphStore := { place := .nowhere } })
      rfl hrs 2 none
  obtain ⟨rs', hrs', pairs⟩ := outcome.records
  cases pairs with
  | cons first pairs =>
  cases pairs with
  | cons refused pairs =>
  cases pairs with
  | cons second pairs =>
  cases pairs with
  | cons unnamed pairs =>
  cases pairs
  obtain ⟨i, hi, rfl⟩ := first.written (by decide) (by decide)
  obtain ⟨j, hj, rfl⟩ := second.written (by decide) (by decide)
  cases refused.kept (.inr (by decide))
  cases unnamed.kept (.inl (by decide))
  have same : i = j := Option.some.inj (hi.symm.trans hj)
  refine ⟨report, w', t, _, _, hbuild, hrecords, hrs', rfl, ?_, rfl, ?_⟩
  · rw [same]
    rfl
  · exact outcome.others "other" (by decide)

end LayerGraph
