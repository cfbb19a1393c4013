import LayerGraph.Proofs.FolderBuild
import LayerGraph.Proofs.RecordSize

/-!
# Building once more

The orders and layers that records carry have no part in the graph that they describe. So a build of a
file that an earlier build has written finds the same graph, with the same order, and writes what is
there already.

Main statements:
1. `ofRecords_carryAll`: the graph of records is the one of the records with their orders.
2. `order_lt_size`: orders are smaller than the file is long, so that they can be read again.
3. `rebuild_idempotent`: a second build does what the first one did, and leaves the file as it is.
-/

namespace LayerGraph

variable {directory project content : String} {rs rs' : List EntityRecord} {d d' d₁ d₂ : Disk}
  {as : List Assignment} {a : Assignment} {r : EntityRecord} {k : NodeKey}

/-! ## The graph of records with orders -/

namespace EntityRecord

/-- Only the order and the layer of a record change. -/
theorem exists_carryAll (as : List Assignment) (r : EntityRecord) :
    ∃ order layer, r.carryAll as = { r with order, layer } := by
  induction as generalizing r with
  | nil => exact ⟨r.order, r.layer, rfl⟩
  | cons a rest ih =>
    obtain ⟨order, layer, h⟩ := ih (r.carry a)
    refine ⟨order, layer, h.trans ?_⟩
    unfold carry
    split <;> rfl

@[simp] theorem kind_carryAll (as : List Assignment) (r : EntityRecord) :
    (r.carryAll as).kind = r.kind := by
  obtain ⟨order, layer, h⟩ := r.exists_carryAll as
  rw [h]

@[simp] theorem isNamed_carryAll (as : List Assignment) (r : EntityRecord) :
    (r.carryAll as).isNamed = r.isNamed := by
  obtain ⟨order, layer, h⟩ := r.exists_carryAll as
  rw [h]
  rfl

end EntityRecord

@[simp] theorem Declaration.merge_carryAll (d : Declaration) (as : List Assignment)
    (r : EntityRecord) : d.merge (r.carryAll as) = d.merge r := by
  obtain ⟨order, layer, h⟩ := r.exists_carryAll as
  rw [h]
  rfl

theorem byKind_carryAll (as : List Assignment) (rs : List EntityRecord) :
    byKind (rs.map (·.carryAll as)) = (byKind rs).map (·.carryAll as) := by
  simp only [byKind, List.map_flatMap, List.filter_map, Function.comp_def,
    EntityRecord.kind_carryAll]

namespace Build

theorem filter_isNamed_carryAll (as : List Assignment) (rs : List EntityRecord) :
    (rs.map (·.carryAll as)).filter EntityRecord.isNamed =
      (rs.filter EntityRecord.isNamed).map (·.carryAll as) := by
  rw [List.filter_map]
  exact congrArg _ (List.filter_congr fun r _ => EntityRecord.isNamed_carryAll as r)

theorem namedKeys_carryAll (as : List Assignment) (rs : List EntityRecord) :
    namedKeys (rs.map (·.carryAll as)) = namedKeys rs := by
  rw [namedKeys, filter_isNamed_carryAll, List.map_map]
  exact List.map_congr_left fun r _ => EntityRecord.key_carryAll as r

theorem declaration_carryAll (k : NodeKey) (as : List Assignment) (rs : List EntityRecord) :
    Declaration.ofRecords k (rs.map (·.carryAll as)) = Declaration.ofRecords k rs := by
  simp only [Declaration.ofRecords, List.filter_map, Function.comp_def, EntityRecord.key_carryAll,
    List.foldl_map, Declaration.merge_carryAll]

theorem declarations_carryAll (as : List Assignment) (rs : List EntityRecord) :
    declarations (rs.map (·.carryAll as)) = declarations rs := by
  unfold declarations
  simp only [namedKeys_carryAll, filter_isNamed_carryAll, declaration_carryAll]

/-- A build looks neither at the orders nor at the layers of records. -/
theorem ofRecords_carryAll (as : List Assignment) (rs : List EntityRecord) :
    ofRecords (rs.map (·.carryAll as)) = ofRecords rs := by
  have unnamed : unnamedWarnings (rs.map (·.carryAll as)) = unnamedWarnings rs := by
    simp only [unnamedWarnings, List.filter_map, List.map_map, Function.comp_def,
      EntityRecord.isNamed_carryAll, EntityRecord.kind_carryAll]
  have duplicates : duplicateWarnings (rs.map (·.carryAll as)) = duplicateWarnings rs := by
    simp only [duplicateWarnings, sharedKeys, namedKeys_carryAll]
  rw [ofRecords_eq, declarations_carryAll, unnamed, duplicates, ofRecords_eq]

/-! ## How large an order can be -/

/-- The keys that a record can give a node to: its own, and one for each name it refers to. -/
def mentioned (r : EntityRecord) : List NodeKey :=
  r.key :: r.relations.map fun (_, target) => ⟨.external, Text.trim target⟩

theorem length_mentioned (r : EntityRecord) : (mentioned r).length = r.size := by
  simp [mentioned, EntityRecord.size]

/-- A graph has no more nodes than its records have names. -/
theorem length_keys_le (rs : List EntityRecord) :
    (ofRecords rs).graph.keys.length ≤ (rs.map EntityRecord.size).sum := by
  have distinct := (reachable_ofRecords rs).wellFormed.keys_nodup
  have among : (ofRecords rs).graph.keys ⊆ rs.flatMap mentioned := by
    intro k hk
    -- a declared entity, or a name that a record refers to
    rcases (mem_keys_ofRecords rs k).1 hk with ⟨r, hr, -, rfl⟩ |
      ⟨-, kind, target, ⟨⟨⟨r, hr, -, -, htarget⟩, -⟩, -⟩, -, rfl⟩
    · exact List.mem_flatMap.2 ⟨r, hr, List.mem_cons_self⟩
    · refine List.mem_flatMap.2 ⟨r, hr, List.mem_cons_of_mem _ ?_⟩
      exact List.mem_map.2 ⟨_, htarget, rfl⟩
  calc (ofRecords rs).graph.keys.length
      ≤ (rs.flatMap mentioned).length := (List.subperm_of_subset distinct among).length_le
    _ = (rs.map EntityRecord.size).sum := by
      rw [List.length_flatMap, funext length_mentioned]

end Build

theorem nodup_keys_assignmentsOf (rs : List EntityRecord) :
    ((assignmentsOf rs).map Assignment.key).Nodup :=
  (Build.reachable_ofRecords (byKind rs)).wellFormed.ordered.nodup_keys_assignments

/-- The place of an entity is smaller than the number of names. -/
theorem order_lt_size (ha : a ∈ assignmentsOf rs) :
    0 ≤ a.order ∧ a.order < ((rs.map EntityRecord.size).sum : Nat) := by
  have hg := (Build.reachable_ofRecords (byKind rs)).wellFormed
  obtain ⟨-, -, -, i, hi, horder⟩ := (Graph.mem_assignments hg).1 ha
  -- the sequence is as long as the graph has nodes
  have place := (List.getElem?_eq_some_iff.1 ((MigrationOrder.position?_eq_some_iff hg).1 hi)).1
  have nodes := Build.length_keys_le (byKind rs)
  rw [(MigrationOrder.perm_sequence hg).length_eq] at place
  rw [((byKind_perm rs).map EntityRecord.size).sum_eq] at nodes
  omega

/-- What a build writes can be read again: the orders of the records of a text have 64 bits. -/
theorem hasOrder64_carryAll {content : List Char} (short : content.length < 2 ^ 63)
    (hr : r ∈ RecordFile.records content) :
    (r.carryAll (assignmentsOf (RecordFile.records content))).HasOrder64 := by
  have bound := RecordFile.size_le content
  by_cases h : ∃ a ∈ assignmentsOf (RecordFile.records content), r.key = a.key
  · obtain ⟨a, ha, hkey⟩ := h
    rw [EntityRecord.carryAll_of_mem (nodup_keys_assignmentsOf _) ha hkey]
    obtain ⟨low, high⟩ := order_lt_size ha
    rintro o ⟨⟩
    omega
  · rw [EntityRecord.carryAll_of_not_mem fun a ha hkey => h ⟨a, ha, hkey⟩]
    exact RecordFile.hasOrder64_of_mem hr

/-! ## The second build -/

/-- The records of a project's file after a build: those from before if nothing was saved, and those
that carry their orders otherwise. -/
def AfterBuild (rs rs' : List EntityRecord) : Prop :=
  rs' = rs ∨ rs' = rs.map (·.carryAll (assignmentsOf rs))

/-- A build leaves a file whose records are known. -/
theorem FolderOutcome.exists_readText {report : WriteBackReport}
    (h : FolderOutcome directory project rs d report d')
    (hread : d.readText (Path.join directory (RecordFolder.fileName project)) = .ok content)
    (hrs : RecordFile.records content.toList = rs) (short : content.length < 2 ^ 63) :
    ∃ content', d'.readText (Path.join directory (RecordFolder.fileName project)) = .ok content' ∧
      AfterBuild rs (RecordFile.records content'.toList) ∧
      (RecordFolder.CanSave { directory } d project → RecordFile.records content'.toList =
        rs.map (·.carryAll (assignmentsOf rs))) := by
  -- Nothing is written, the text of the records is written, or it cannot be saved.
  by_cases empty : assignmentsOf rs = []
  · rw [(h.untouched empty).2]
    refine ⟨content, hread, .inl hrs, fun _ => ?_⟩
    rw [hrs, empty]
    exact (List.map_id _).symm
  · have rewritten := h.rewritten empty
    by_cases can : RecordFolder.CanSave { directory } d project
    · obtain ⟨-, hbytes, -⟩ := rewritten.saved can
      have back : RecordFile.records
          (RecordFile.render (rs.map (·.carryAll (assignmentsOf rs)))).toList =
          rs.map (·.carryAll (assignmentsOf rs)) := by
        refine RecordFile.records_render ?_
        rw [List.forall_mem_map]
        intro r hr
        subst hrs
        exact hasOrder64_carryAll (by rwa [String.length_toList]) hr
      exact ⟨_, Disk.readText_of_readBytes hbytes, .inr back, fun _ => back⟩
    · obtain ⟨hbytes, -⟩ := rewritten.kept can
      refine ⟨content, ?_, .inl hrs, fun can' => absurd can' can⟩
      rw [Disk.readText, hbytes]
      exact hread

/-- The records of a file that a build has left describe the same graph. -/
theorem AfterBuild.ofRecords_eq (h : AfterBuild rs rs') :
    Build.ofRecords (byKind rs') = Build.ofRecords (byKind rs) := by
  rcases h with rfl | rfl
  · rfl
  · rw [byKind_carryAll, Build.ofRecords_carryAll]

theorem AfterBuild.assignmentsOf_eq (h : AfterBuild rs rs') :
    assignmentsOf rs' = assignmentsOf rs := by
  rw [assignmentsOf, h.ofRecords_eq, assignmentsOf]

/-- The same orders go onto the same records. -/
theorem AfterBuild.carryAll_eq (h : AfterBuild rs rs') :
    rs'.map (·.carryAll (assignmentsOf rs')) = rs.map (·.carryAll (assignmentsOf rs)) := by
  rw [h.assignmentsOf_eq]
  rcases h with rfl | rfl
  · rfl
  · rw [List.map_map]
    exact List.map_congr_left fun r _ =>
      EntityRecord.carryAll_carryAll (nodup_keys_assignmentsOf rs) r

/-- Saving the same records once more leaves the file as it is. -/
theorem Rewritten.again {ε ε' : Type} {failure : Option ε} {failure' : Option ε'}
    (h : Rewritten directory project rs d failure d₁)
    (h' : Rewritten directory project rs d₁ failure' d₂) :
    d₂.readBytes (Path.join directory (RecordFolder.fileName project)) =
      d₁.readBytes (Path.join directory (RecordFolder.fileName project)) := by
  by_cases can : RecordFolder.CanSave { directory } d project
  · obtain ⟨-, hbytes, can'⟩ := h.saved can
    rw [hbytes, (h'.saved can').2.1]
  · exact (h'.kept (h.kept can).2).1

/-- What came of two builds of a project, one after the other. The first one wrote all assignments of
the graph that the records describe. The second one did the same, and did not change the file. If it
could be written, both have saved it, and its records carry their orders. -/
structure Rebuilt (directory project : String) (rs : List EntityRecord) (d d₁ d₂ : Disk)
    (first second : BuildReport) : Prop where
  described : first.ordered.graph = (Build.ofRecords (byKind rs)).graph.ordered
  assigned : first.writeBack.assignments = first.ordered.graph.assignments
  wrote : first.writeBack.written = first.writeBack.assignments.length
  graph : second.ordered.graph = first.ordered.graph
  fingerprint : second.ordered.graph.fingerprint = first.ordered.graph.fingerprint
  assignments : second.writeBack.assignments = first.writeBack.assignments
  written : second.writeBack.written = first.writeBack.written
  file : ∃ bytes,
    d₁.readBytes (Path.join directory (RecordFolder.fileName project)) = .ok bytes ∧
    d₂.readBytes (Path.join directory (RecordFolder.fileName project)) = .ok bytes
  saved : RecordFolder.CanSave { directory } d project →
    first.writeBack.saveError = none ∧ second.writeBack.saveError = none ∧
    ∃ content, d₁.readText (Path.join directory (RecordFolder.fileName project)) = .ok content ∧
      RecordFile.records content.toList = rs.map (·.carryAll first.writeBack.assignments)

/-- A second build over a fresh store finds the same graph as the first one, writes the same
assignments, and leaves the file as it is, whatever its text and whether or not it can be saved. The
text is one that fits in memory. -/
theorem rebuild_idempotent {w : Workspace} (hname : isProjectName project = true)
    (hread : w.disk.readText (Path.join directory (RecordFolder.fileName project)) = .ok content)
    (short : content.length < 2 ^ 63) (m n : Nat) (copy again : Option (SyncLimits × String))
    (off : (copy = none ∧ again = none) ∨ w.graphStore.IsOffDisk) :
    ∃ first w₁ second w₂,
      { w with records := .folder { directory } }.build m project false copy = (.ok first, w₁) ∧
      { w₁ with records := .folder { directory } }.build n project false again =
        (.ok second, w₂) ∧
      Rebuilt directory project (RecordFile.records content.toList) w.disk w₁.disk w₂.disk first
        second := by
  generalize hrs : RecordFile.records content.toList = rs
  obtain ⟨first, w₁, hbuild, hgraph, outcome, hoff⟩ :=
    exists_build_folder (w := { w with records := .folder { directory } }) rfl hname hread hrs m
      copy (off.imp_left And.left)
  obtain ⟨content₁, hread₁, after, hcarry⟩ := outcome.exists_readText hread hrs short
  obtain ⟨q, bytes, holds, -⟩ := Disk.exists_holdsFile hread₁
  obtain ⟨second, w₂, hbuild', hgraph', outcome', -⟩ :=
    exists_build_folder (w := { w₁ with records := .folder { directory } }) rfl hname hread₁ rfl n
      again (off.imp And.right hoff)
  refine ⟨first, w₁, second, w₂, hbuild, hbuild', ?_⟩
  -- what the second build reads describes the graph of the first one, and takes the same orders
  have graph : second.ordered.graph = first.ordered.graph := by
    rw [hgraph', hgraph, after.ofRecords_eq]
  have nonempty (h : assignmentsOf rs ≠ []) :
      assignmentsOf (RecordFile.records content₁.toList) ≠ [] := by
    rwa [after.assignmentsOf_eq]
  constructor
  · exact hgraph
  · rw [outcome.assignments, hgraph, assignmentsOf]
  · rw [outcome.written, outcome.assignments]
  · exact graph
  · rw [graph]
  · rw [outcome'.assignments, outcome.assignments, after.assignmentsOf_eq]
  · rw [outcome'.written, outcome.written, after.assignmentsOf_eq]
  · refine ⟨bytes, holds.readBytes, ?_⟩
    by_cases empty : assignmentsOf rs = []
    · rw [(outcome'.untouched (after.assignmentsOf_eq.trans empty)).2]
      exact holds.readBytes
    · have rewritten := outcome'.rewritten (nonempty empty)
      rw [after.carryAll_eq] at rewritten
      exact ((outcome.rewritten empty).again rewritten).trans holds.readBytes
  · intro can
    rw [outcome.assignments]
    by_cases empty : assignmentsOf rs = []
    · exact ⟨(outcome.untouched empty).1,
        (outcome'.untouched (after.assignmentsOf_eq.trans empty)).1, content₁, hread₁, hcarry can⟩
    · obtain ⟨saved, -, can'⟩ := (outcome.rewritten empty).saved can
      obtain ⟨saved', -⟩ := (outcome'.rewritten (nonempty empty)).saved can'
      exact ⟨saved, saved', content₁, hread₁, hcarry can⟩

/-- A file with two records of one class, a line that is none, and a record without a name. -/
def shopText : String :=
  "\x7b\"kind\":\"class\",\"name\":\" A \"\x7d\nA\n" ++
  "\x7b\"kind\":\"class\",\"name\":\"A\",\"parent_class\":\"B\"\x7d\n" ++
  "\x7b\"kind\":\"page\",\"name\":\" \"\x7d"

/-- A workspace with that file in a directory. -/
def shopWorkspace : Workspace where
  disk :=
    { entries := [([Text.octets "data"], .directory),
        ([Text.octets "data", Text.octets "shop.jsonl"], .file shopText.toUTF8)] }
  records := .folder { directory := "data" }
  graphStore := { place := .nowhere }

/-- Both builds save the file, and the second one writes the same bytes. These hold the three records;
the line that is none is gone. -/
theorem rebuild_idempotent_shop : ∃ first w₁ second w₂ bytes content,
    shopWorkspace.build 4 "shop" false none = (.ok first, w₁) ∧
    Workspace.build { w₁ with records := .folder { directory := "data" } } 1 "shop" false none =
      (.ok second, w₂) ∧
    first.writeBack.assignments ≠ [] ∧
    second.writeBack.assignments = first.writeBack.assignments ∧
    first.writeBack.saveError = none ∧ second.writeBack.saveError = none ∧
    w₁.disk.readBytes "data/shop.jsonl" = .ok bytes ∧
    w₂.disk.readBytes "data/shop.jsonl" = .ok bytes ∧
    w₁.disk.readText "data/shop.jsonl" = .ok content ∧
    (RecordFile.records content.toList).length = 3 := by
  have hread : shopWorkspace.disk.readText (Path.join "data" (RecordFolder.fileName "shop")) =
      .ok shopText := Disk.readText_of_readBytes rfl
  have short : shopText.length < 2 ^ 63 := by
    cbv
  obtain ⟨first, w₁, second, w₂, hbuild, hbuild', rebuilt⟩ :=
    rebuild_idempotent (w := shopWorkspace) rfl hread short 4 1 none none (.inl ⟨rfl, rfl⟩)
  have can : RecordFolder.CanSave { directory := "data" } shopWorkspace.disk "shop" :=
    ⟨[Text.octets "data", Text.octets "shop.jsonl.tmp"],
      [Text.octets "data", Text.octets "shop.jsonl"], rfl, rfl, by decide, by decide, by decide⟩
  have records : RecordFile.records shopText.toList = [{ kind := .classDef, name := " A " },
      { kind := .classDef, name := "A", parentClass := some "B" },
      { kind := .page, name := " " }] := rfl
  have assigns : first.writeBack.assignments ≠ [] := by
    obtain ⟨a, ha, -⟩ := Build.exists_assignment (k := ⟨.classDef, "A"⟩) ⟨_,
      (byKind_perm _).mem_iff.2 (records ▸ List.mem_cons_self), by decide, by decide⟩
    rw [rebuilt.assigned, rebuilt.described]
    exact List.ne_nil_of_mem ha
  obtain ⟨bytes, hbytes, hbytes'⟩ := rebuilt.file
  obtain ⟨saved, saved', content, hcontent, hrecords⟩ := rebuilt.saved can
  refine ⟨first, w₁, second, w₂, bytes, content, hbuild, hbuild', assigns, rebuilt.assignments,
    saved, saved', hbytes, hbytes', hcontent, ?_⟩
  rw [hrecords, List.length_map, records]
  rfl

end LayerGraph
