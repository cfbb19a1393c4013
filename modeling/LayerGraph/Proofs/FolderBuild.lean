import LayerGraph.Proofs.SavedFile
import LayerGraph.Proofs.WriteBackOutcome

/-!
# A build over a folder

A build reads the file of a project once, writes the orders onto the records that it keeps, and saves
them if there was anything to write. Then the file holds the text of the records with their orders,
or it is as it was when it cannot be saved.

Main statements:
1. `readProject_folder`: a build reads the records of the project's file.
2. `foldl_carried`: what the writes leave in the store.
3. `exists_build_folder`: what comes of a build.
-/

namespace LayerGraph

variable {directory project content : String} {rs : List EntityRecord} {d : Disk}
  {done as : List Assignment} {a : Assignment} {warnings : List LoadWarning} {dirty : Bool}

/-! ## Reading -/

/-- A store over a folder that keeps one project. -/
def keeping (directory : String) (warnings : List LoadWarning) (project : String)
    (rs : List EntityRecord) (dirty : Bool) : RecordFolder where
  directory
  files := [⟨project, rs, dirty⟩]
  warnings

@[simp] theorem file?_keeping : (keeping directory warnings project rs dirty).file? project =
    some ⟨project, rs, dirty⟩ := by
  simp [RecordFolder.file?, keeping]

@[simp] theorem records_keeping :
    (keeping directory warnings project rs dirty).records project = rs := by
  simp [RecordFolder.records]

theorem load_keeping (readers : Nat) :
    (keeping directory warnings project rs dirty).load d readers project =
      .ok (keeping directory warnings project rs dirty) := by
  rw [RecordFolder.load, file?_keeping]
  rfl

/-- A fresh store reads a project's file, and keeps its records. -/
theorem load_fresh (hname : isProjectName project = true)
    (hread : d.readText (Path.join directory (RecordFolder.fileName project)) = .ok content)
    (readers : Nat) : ∃ warnings, RecordFolder.load { directory } d readers project =
      .ok (keeping directory warnings project (RecordFile.records content.toList) false) := by
  refine ⟨(List.replicate readers (RecordFile.warnings project content.toList)).flatten, ?_⟩
  unfold RecordFolder.load RecordFolder.projectPath
  rw [if_neg (by simp [RecordFolder.file?]), if_pos hname]
  simp only [bind, Except.bind]
  rw [hread]
  rfl

/-- A build reads the records of a project that is kept kind by kind. -/
theorem readProject_of_load {f f' : RecordFolder} {n : Nat}
    (h : f.load d (RecordStore.overlappingReads n) project = .ok f') :
    (RecordStore.folder f).readProject d n project =
      (.ok (byKind (f'.records project)), .folder f') := by
  have all : EntityKind.all.mapM ((RecordStore.folder f').listLoaded project ·) =
      .ok (EntityKind.all.map fun kind => (f'.records project).filter (·.kind = kind)) := rfl
  unfold RecordStore.readProject RecordStore.readBy RecordStore.load
  dsimp only
  rw [h]
  dsimp only [Except.map]
  rw [all]
  rfl

/-- So the build of a fresh store reads the records of the project's file. -/
theorem readProject_folder (hname : isProjectName project = true)
    (hread : d.readText (Path.join directory (RecordFolder.fileName project)) = .ok content)
    (n : Nat) : ∃ warnings, (RecordStore.folder { directory }).readProject d n project =
      (.ok (byKind (RecordFile.records content.toList)),
        .folder (keeping directory warnings project (RecordFile.records content.toList) false)) := by
  obtain ⟨warnings, hload⟩ := load_fresh hname hread (RecordStore.overlappingReads n)
  refine ⟨warnings, ?_⟩
  rw [readProject_of_load hload, records_keeping]

/-! ## Writing -/

/-- Writes under way: the records carry the assignments that have been written, and none has been
skipped. -/
def carried (directory : String) (warnings : List LoadWarning) (project : String)
    (rs : List EntityRecord) (done : List Assignment) : WriteBack.Progress where
  store := .folder (keeping directory warnings project (rs.map (·.carryAll done)) !done.isEmpty)
  written := done.length

/-- An assignment that has records goes onto them. -/
theorem write_carried (hlocal : a.key.isExternal = false) (hmem : ∃ r ∈ rs, r.key = a.key) :
    (carried directory warnings project rs done).write d project a =
      carried directory warnings project rs (done ++ [a]) := by
  obtain ⟨kind, hkind⟩ := EntityKind.exists_ofNodeType? hlocal
  have hmem' : ∃ r ∈ rs.map (·.carryAll done), r.key = a.key := by
    obtain ⟨r, hr, hkey⟩ := hmem
    exact ⟨_, List.mem_map_of_mem hr, (EntityRecord.key_carryAll _ _).trans hkey⟩
  -- carrying changes no key, so the assignment still finds its records
  have lands : (keeping directory warnings project (rs.map (·.carryAll done)) !done.isEmpty).writeOrder
      project kind a.key.name a.order a.layer = .ok (keeping directory warnings project
        ((rs.map (·.carryAll done)).map (·.carry a)) true) := by
    rw [RecordFolder.writeOrder, records_keeping, EntityRecord.writeOrderOnto_eq hkind hmem']
    simp [RecordFolder.updateFile, keeping]
  have written : (carried directory warnings project rs done).store.writeOrder d project kind
      a.key.name a.order a.layer = (none, .folder (keeping directory warnings project
        ((rs.map (·.carryAll done)).map (·.carry a)) true)) := by
    unfold RecordStore.writeOrder RecordStore.load carried
    dsimp only
    rw [load_keeping]
    dsimp only [Except.map]
    rw [lands]
  unfold WriteBack.Progress.write
  rw [hkind]
  dsimp only
  rw [written]
  have changed : (done ++ [a]).isEmpty = false := by cases done <;> rfl
  simp [carried, EntityRecord.carryAll_concat, Function.comp_def, changed]

theorem foldl_carried (hlocal : ∀ a ∈ as, a.key.isExternal = false)
    (hmem : ∀ a ∈ as, ∃ r ∈ rs, r.key = a.key) :
    as.foldl (WriteBack.Progress.write d project) (carried directory warnings project rs done) =
      carried directory warnings project rs (done ++ as) := by
  induction as generalizing done with
  | nil => simp
  | cons a rest ih =>
    rw [List.foldl_cons, write_carried (hlocal a List.mem_cons_self) (hmem a List.mem_cons_self),
      ih (fun b hb => hlocal b (List.mem_cons_of_mem a hb))
        fun b hb => hmem b (List.mem_cons_of_mem a hb), List.append_assoc, List.singleton_append]

/-! ## Saving -/

theorem save_clean : (RecordStore.folder (keeping directory warnings project rs false)).save d =
    (none, .folder (keeping directory warnings project rs false), d) := by
  simp [RecordStore.save, RecordFolder.save, RecordFolder.dirtyProjects, keeping, Sorted.sort,
    RecordFolder.saveProjects]

/-- Only the project that is kept is written, and it is written whole. -/
theorem exists_save_dirty {failure : Option FileFault} {d' : Disk}
    (h : (keeping directory warnings project rs true).writeFile d ⟨project, rs, true⟩ =
      (failure, d')) : ∃ store,
    (RecordStore.folder (keeping directory warnings project rs true)).save d =
      (failure.map Error.file, store, d') := by
  have dirty : (keeping directory warnings project rs true).dirtyProjects = [project] := by
    simp [RecordFolder.dirtyProjects, keeping, Sorted.sort]
  unfold RecordStore.save RecordFolder.save
  dsimp only
  rw [dirty, RecordFolder.saveProjects, file?_keeping]
  dsimp only
  rw [h]
  cases failure with
  | none => exact ⟨_, rfl⟩
  | some fault => exact ⟨_, rfl⟩

/-- What became of a project's file: it holds the text of the records if it could be saved, and it is
as it was otherwise. Whether it can be saved stays the same. -/
structure Rewritten {ε : Type} (directory project : String) (rs : List EntityRecord) (d : Disk)
    (failure : Option ε) (d' : Disk) : Prop where
  saved : RecordFolder.CanSave { directory } d project → failure = none ∧
    d'.readBytes (Path.join directory (RecordFolder.fileName project)) =
      .ok (RecordFile.render rs).toUTF8 ∧ RecordFolder.CanSave { directory } d' project
  kept : ¬ RecordFolder.CanSave { directory } d project →
    d'.readBytes (Path.join directory (RecordFolder.fileName project)) =
      d.readBytes (Path.join directory (RecordFolder.fileName project)) ∧
      ¬ RecordFolder.CanSave { directory } d' project

theorem Rewritten.map {ε ε' : Type} {failure : Option ε} {d' : Disk}
    (h : Rewritten directory project rs d failure d') (message : ε → ε') :
    Rewritten directory project rs d (failure.map message) d' :=
  ⟨fun can => ⟨by rw [(h.saved can).1]; rfl, (h.saved can).2⟩, h.kept⟩

theorem exists_rewritten (warnings : List LoadWarning) (rs : List EntityRecord)
    (hname : isProjectName project = true)
    (hread : d.readText (Path.join directory (RecordFolder.fileName project)) = .ok content) :
    ∃ failure d', (keeping directory warnings project rs true).writeFile d ⟨project, rs, true⟩ =
      (failure, d') ∧ Rewritten directory project rs d failure d' := by
  obtain ⟨q, bytes, hold, -⟩ := Disk.exists_holdsFile hread
  by_cases can : (keeping directory warnings project rs true).CanSave d project
  · obtain ⟨d', hwrite, hbytes, can'⟩ :=
      RecordFolder.exists_writeFile (f := ⟨project, rs, true⟩) hname hold can
    exact ⟨none, d', hwrite, fun _ => ⟨rfl, hbytes, can'⟩, fun cannot => absurd can cannot⟩
  · obtain ⟨fault, d', hwrite, hbytes, cannot'⟩ :=
      RecordFolder.exists_writeFile_fault (f := ⟨project, rs, true⟩) hname hold can
    exact ⟨some fault, d', hwrite, fun can' => absurd can' can,
      fun _ => ⟨hbytes.trans hold.readBytes.symm, cannot'⟩⟩

/-! ## Copying -/

namespace GraphStore

variable {s : GraphStore}

/-- The graph store keeps no database on the disk. -/
def IsOffDisk (s : GraphStore) : Prop :=
  s.place = .nowhere ∨ (∃ m, s.place = .memory m) ∨ ∃ name fault, s.place = .refused name fault

theorem IsOffDisk.exists_connect (h : s.IsOffDisk) (d : Disk) (timeout : Duration) :
    ∃ result, s.connect d timeout = (result, s, d) := by
  unfold connect
  rcases h with hs | ⟨m, hs⟩ | ⟨name, fault, hs⟩ <;> rw [hs] <;> exact ⟨_, rfl⟩

theorem IsOffDisk.exists_ask {α : Type} (h : s.IsOffDisk) (d : Disk) (timeout : Duration)
    (call : StoreCall) (answer : StoredGraph → α) :
    ∃ result, s.ask d timeout call answer = (result, s, d) := by
  unfold ask
  cases s.callFault? timeout call with
  | some fault => exact ⟨_, rfl⟩
  | none =>
    obtain ⟨result, hconnect⟩ := h.exists_connect d timeout
    dsimp only
    rw [hconnect]
    cases result with
    | error fault => exact ⟨_, rfl⟩
    | ok m => dsimp only; split <;> exact ⟨_, rfl⟩

theorem IsOffDisk.exists_keep (h : s.IsOffDisk) (d : Disk) (m : StoredGraph) :
    ∃ s', s.keep d m = (s', d) ∧ s'.IsOffDisk := by
  unfold keep
  rcases h with hs | ⟨old, hs⟩ | ⟨name, fault, hs⟩ <;> rw [hs]
  · exact ⟨s, rfl, .inl hs⟩
  · exact ⟨_, rfl, .inr (.inl ⟨m, rfl⟩)⟩
  · exact ⟨s, rfl, .inr (.inr ⟨name, fault, hs⟩)⟩

/-- A copy into such a store leaves the disk as it is. -/
theorem IsOffDisk.exists_sync (h : s.IsOffDisk) (d : Disk) (limits : SyncLimits) (run : String)
    (g : Graph) : ∃ report s', s.sync d limits run g = (report, s', d) ∧ s'.IsOffDisk := by
  unfold sync
  obtain ⟨result, hask⟩ := h.exists_ask d limits.timeout .ping id
  rw [hask]
  cases result with
  | error fault => exact ⟨_, s, rfl, h⟩
  | ok m =>
    dsimp only
    obtain ⟨s', hkeep, h'⟩ :=
      h.exists_keep d (Sync.run limits (s.syncFaults d limits.timeout) run g m).2
    rw [hkeep]
    exact ⟨_, s', rfl, h'⟩

end GraphStore

/-! ## A whole build -/

/-- The assignments of the graph that the records of a project describe. -/
def assignmentsOf (rs : List EntityRecord) : List Assignment :=
  (Build.ofRecords (byKind rs)).graph.ordered.assignments

theorem exists_record_of_mem_assignmentsOf (h : a ∈ assignmentsOf rs) : ∃ r ∈ rs, r.key = a.key := by
  obtain ⟨r, hr, -, hkey⟩ := Build.declares_of_mem_assignments h
  exact ⟨r, (byKind_perm rs).mem_iff.1 hr, hkey⟩

/-- What came of writing back: all assignments have been written, and they have been saved if there
are any. -/
structure FolderOutcome (directory project : String) (rs : List EntityRecord) (d : Disk)
    (report : WriteBackReport) (d' : Disk) : Prop where
  assignments : report.assignments = assignmentsOf rs
  written : report.written = (assignmentsOf rs).length
  untouched : assignmentsOf rs = [] → report.saveError = none ∧ d' = d
  rewritten : assignmentsOf rs ≠ [] → Rewritten directory project
    (rs.map (·.carryAll (assignmentsOf rs))) d report.saveError d'

theorem exists_folderOutcome (warnings : List LoadWarning) (rs : List EntityRecord)
    (hname : isProjectName project = true)
    (hread : d.readText (Path.join directory (RecordFolder.fileName project)) = .ok content) :
    ∃ report store d', WriteBack.run d project (Build.ofRecords (byKind rs)).graph.ordered false
        (.folder (keeping directory warnings project rs false)) = (report, store, d') ∧
      FolderOutcome directory project rs d report d' := by
  have hlocal : ∀ a ∈ assignmentsOf rs, a.key.isExternal = false := fun a ha =>
    (Build.declares_of_mem_assignments ha).not_external
  have start : carried directory warnings project rs [] =
      { store := .folder (keeping directory warnings project rs false) } := by
    simp [carried, EntityRecord.carryAll]
  have hwrites : (assignmentsOf rs).foldl (WriteBack.Progress.write d project)
      (carried directory warnings project rs []) =
        carried directory warnings project rs ([] ++ assignmentsOf rs) :=
    foldl_carried hlocal fun a ha => exists_record_of_mem_assignmentsOf ha
  rw [List.nil_append, start] at hwrites
  by_cases empty : assignmentsOf rs = []
  · -- nothing was written, so nothing is saved
    have hstore : (carried directory warnings project rs (assignmentsOf rs)).store =
        .folder (keeping directory warnings project rs false) := by
      rw [empty, start]
    obtain ⟨report, hrun, hassignments, hwritten, -, herror⟩ :=
      WriteBack.exists_run hwrites (hstore ▸ save_clean)
    refine ⟨report, _, d, hrun, hassignments, hwritten, fun _ => ⟨herror, rfl⟩, ?_⟩
    exact fun nonempty => absurd empty nonempty
  · have hstore : (carried directory warnings project rs (assignmentsOf rs)).store =
        .folder (keeping directory warnings project
          (rs.map (·.carryAll (assignmentsOf rs))) true) := by
      have dirty : (!(assignmentsOf rs).isEmpty) = true := by simpa using empty
      rw [carried, dirty]
    obtain ⟨failure, d', hwrite, rewritten⟩ := exists_rewritten warnings
      (rs.map (·.carryAll (assignmentsOf rs))) hname hread
    obtain ⟨store, hsave⟩ := exists_save_dirty hwrite
    obtain ⟨report, hrun, hassignments, hwritten, -, herror⟩ :=
      WriteBack.exists_run hwrites (hstore ▸ hsave)
    refine ⟨report, store, d', hrun, hassignments, hwritten, fun none => absurd none empty, ?_⟩
    intro
    rw [herror, Option.map_map]
    exact rewritten.map _

/-- A build over a fresh store reads the project's file and has its outcome, whether or not the graph
is copied to a store that keeps off the disk. -/
theorem exists_build_folder {w : Workspace} (hw : w.records = .folder { directory })
    (hname : isProjectName project = true)
    (hread : w.disk.readText (Path.join directory (RecordFolder.fileName project)) = .ok content)
    (hrs : RecordFile.records content.toList = rs) (n : Nat)
    (copy : Option (SyncLimits × String)) (off : copy = none ∨ w.graphStore.IsOffDisk) :
    ∃ report w', w.build n project false copy = (.ok report, w') ∧
      report.ordered.graph = (Build.ofRecords (byKind rs)).graph.ordered ∧
      FolderOutcome directory project rs w.disk report.writeBack w'.disk ∧
      (w.graphStore.IsOffDisk → w'.graphStore.IsOffDisk) := by
  subst hrs
  obtain ⟨warnings, hproject⟩ := readProject_folder hname hread n
  obtain ⟨back, store, d', hrun, outcome⟩ := exists_folderOutcome warnings
    (RecordFile.records content.toList) hname hread
  unfold Workspace.build Workspace.buildGraph RecordStore.buildGraph
  rw [hw, hproject]
  dsimp only [Except.map]
  have graph_eq := graph_ofBuild ((RecordStore.folder (keeping directory warnings project
    (RecordFile.records content.toList) false)).output project
      (byKind (RecordFile.records content.toList)))
  rw [graph_output] at graph_eq
  unfold Workspace.finish Workspace.writeBack
  rw [graph_eq, hrun]
  dsimp only
  rcases copy with _ | ⟨limits, run⟩
  · exact ⟨_, _, rfl, graph_eq, outcome, id⟩
  · have off : w.graphStore.IsOffDisk := off.resolve_left (by simp)
    obtain ⟨sync, s', hsync, off'⟩ := off.exists_sync d' limits run
      (Build.ofRecords (byKind (RecordFile.records content.toList))).graph.ordered
    unfold Workspace.sync
    dsimp only
    rw [if_neg Bool.false_ne_true, hsync]
    exact ⟨_, _, rfl, graph_eq, outcome, fun _ => off'⟩

end LayerGraph
