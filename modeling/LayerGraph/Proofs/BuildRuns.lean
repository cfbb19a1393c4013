import LayerGraph.Proofs.ProjectReads
import LayerGraph.Proofs.SameRecords

/-!
# All ways to build

A build reads the records of a project in one of many ways, and goes on by itself from there. In
whatever way it reads, it comes to the same graph with the same cycles, writes the same orders onto
the same files, and copies the same graph. Only its warnings may differ: those of the project's file
may be reported several times, and those of records without a name come in the order in which the
kinds have been listed. So what holds of the one way that a store reads in holds of all ways, but for
that.

Main statements:
1. `Build.graph_inKinds`: the graph does not depend on the order of the kinds.
2. `RecordStore.Reads.exists_readBy`: each way to read is given by a number of readers and an order of
   the kinds.
3. `Workspace.builds_build`: one way to build.
4. `Workspace.Builds.alike`: what all ways to build have in common.
-/

namespace LayerGraph

/-! ## Kinds in any order -/

/-- Taking a list apart by a mark does not move the elements that are picked, if all of them have one
mark. -/
theorem filter_flatMap_filter {α κ : Type} [DecidableEq κ] (mark : α → κ) (pick : α → Bool)
    {ks : List κ} (distinct : ks.Nodup) {xs : List α} (marked : ∀ x ∈ xs, mark x ∈ ks)
    (same : ∀ x ∈ xs, ∀ y ∈ xs, pick x = true → pick y = true → mark x = mark y) :
    (ks.flatMap fun k => xs.filter (mark · = k)).filter pick = xs.filter pick := by
  rw [List.filter_flatMap]
  by_cases some_picked : ∃ x ∈ xs, pick x = true
  · obtain ⟨x, hx, hpick⟩ := some_picked
    obtain ⟨before, after, rfl⟩ := List.append_of_mem (marked x hx)
    have others : ∀ k, k ≠ mark x → (xs.filter (mark · = k)).filter pick = [] := by
      intro k other
      refine List.filter_eq_nil_iff.2 fun y hy hpick' => other ?_
      obtain ⟨hy, hmark⟩ := List.mem_filter.1 hy
      rw [← of_decide_eq_true hmark, same y hy x hx hpick' hpick]
    have own : (xs.filter (mark · = mark x)).filter pick = xs.filter pick := by
      rw [List.filter_filter]
      refine List.filter_congr fun y hy => ?_
      cases hpick' : pick y with
      | false => rfl
      | true => simpa using same y hy x hx hpick' hpick
    have nothing (ks : List κ) (hks : mark x ∉ ks) :
        ks.flatMap (fun k => (xs.filter (mark · = k)).filter pick) = [] :=
      List.flatMap_eq_nil_iff.2 fun k hk => others k fun e => hks (e ▸ hk)
    obtain ⟨-, hafter, hbefore⟩ := List.nodup_append.1 distinct
    rw [List.flatMap_append, List.flatMap_cons, own,
      nothing before fun hmem => hbefore _ hmem _ List.mem_cons_self rfl,
      nothing after (List.nodup_cons.1 hafter).1, List.nil_append, List.append_nil]
  · have none_picked : ∀ x ∈ xs, ¬ pick x = true := fun x hx hpick => some_picked ⟨x, hx, hpick⟩
    rw [List.filter_eq_nil_iff.2 none_picked]
    refine List.flatMap_eq_nil_iff.2 fun k _ => List.filter_eq_nil_iff.2 fun x hx => ?_
    exact none_picked x (List.mem_filter.1 hx).1

namespace Build

variable {kinds : List EntityKind} {rs : List EntityRecord}

theorem inKinds_perm (perm : kinds.Perm EntityKind.all) (rs : List EntityRecord) :
    (inKinds kinds rs).Perm rs :=
  (perm.flatMap_right _).trans (byKind_perm rs)

theorem filter_inKinds (pick : EntityRecord → Bool) (kinds : List EntityKind)
    (rs : List EntityRecord) :
    (inKinds kinds rs).filter pick = inKinds kinds (rs.filter pick) := by
  rw [inKinds, List.filter_flatMap]
  refine List.flatMap_congr fun kind _ => ?_
  rw [List.filter_filter, List.filter_filter]
  exact List.filter_congr fun r _ => Bool.and_comm _ _

/-- The records of one entity are of one kind, so the order of the kinds does not move them. -/
theorem filter_key_inKinds (perm : kinds.Perm EntityKind.all) (rs : List EntityRecord)
    (k : NodeKey) : (inKinds kinds rs).filter (·.key = k) = rs.filter (·.key = k) := by
  refine filter_flatMap_filter EntityRecord.kind _ (perm.nodup_iff.2 (by decide))
    (fun r _ => perm.mem_iff.2 (by cases r.kind <;> decide)) fun r _ r' _ hr hr' => ?_
  have same : r.key = r'.key := (of_decide_eq_true hr).trans (of_decide_eq_true hr').symm
  exact EntityKind.nodeType_injective (congrArg NodeKey.type same)

theorem declarations_inKinds (perm : kinds.Perm EntityKind.all) (rs : List EntityRecord) :
    declarations (inKinds kinds rs) = declarations rs := by
  unfold declarations namedKeys Declaration.ofRecords
  simp only [filter_inKinds EntityRecord.isNamed, filter_key_inKinds perm]
  rw [Sorted.distinct_eq_of_perm ((inKinds_perm perm _).map EntityRecord.key)]

/-- The order in which the kinds have been listed does not matter to the graph, not even to the order
of its growth. -/
theorem graph_inKinds (perm : kinds.Perm EntityKind.all) (rs : List EntityRecord) :
    (ofRecords (inKinds kinds rs)).graph = (ofRecords rs).graph := by
  rw [ofRecords_eq, ofRecords_eq, declarations_inKinds perm]
  exact graph_foldl_addLink _ rfl

/-- Of the warnings, only those of records without a name follow that order. -/
theorem exists_warnings_inKinds (rs : List EntityRecord) : ∃ rest, ∀ kinds : List EntityKind,
    kinds.Perm EntityKind.all → (ofRecords (inKinds kinds rs)).warnings =
      ((inKinds kinds rs).filter fun r => !r.isNamed).map (.unnamedRecord ·.kind) ++ rest := by
  refine ⟨duplicateWarnings rs ++ unresolvedWarnings (ofRecords rs).graph, fun kinds perm => ?_⟩
  rw [(resolved_ofRecords _).warnings, graph_inKinds perm,
    duplicateWarnings_eq (inKinds_perm perm rs), List.append_assoc]
  rfl

end Build

/-! ## Ways to read -/

namespace RecordStore

variable {d : Disk} {n readers readers' : Nat} {project : String} {kinds kinds' : List EntityKind}
  {s s' : RecordStore} {f f' : RecordFolder} {result : Except Error (List EntityRecord)}

/-- What can come of reading a project for a build that makes so many calls at once. A call of a store
in memory ends as it begins; calls of a store over a folder may overlap, and the first that fails ends
the build. -/
inductive Reads (d : Disk) (n : Nat) (project : String) :
    RecordStore → Except Error (List EntityRecord) → RecordStore → Prop
  | memory (m : RefusingStore) :
      Reads d n project (.memory m) ((EntityKind.all.mapM (m.list project ·)).map List.flatten)
        (.memory m)
  | listed {f : RecordFolder} {s : Listing} :
      Listing.ReachesFrom d n f project s → s.IsFinished →
      Reads d n project (.folder f) (.ok (s.batches.flatMap Prod.snd)) (.folder s.store)
  | failed {f : RecordFolder} {s : Listing} {e : Error} :
      Listing.ReachesFrom d n f project s → s.Fails d project e →
      Reads d n project (.folder f) (.error e) (.folder s.store)

theorem mapM_listLoaded_folder (f : RecordFolder) (project : String) (kinds : List EntityKind) :
    (kinds.mapM ((folder f).listLoaded project ·)).map List.flatten =
      .ok (inKinds kinds (f.records project)) := by
  have each : kinds.mapM ((folder f).listLoaded project ·) =
      .ok (kinds.map fun kind => (f.records project).filter (·.kind = kind)) := by
    induction kinds with
    | nil => rfl
    | cons kind rest ih =>
      rw [List.mapM_cons, ih]
      rfl
  rw [each]
  rfl

theorem readBy_folder_of_ok (h : f.load d readers project = .ok f') :
    (folder f).readBy d readers kinds project =
      (.ok (inKinds kinds (f'.records project)), .folder f') := by
  unfold readBy load
  dsimp only
  rw [h]
  exact congrArg (Prod.mk · _) (mapM_listLoaded_folder f' project kinds)

theorem readBy_folder_of_error {e : Error} (h : f.load d readers project = .error e) :
    (folder f).readBy d readers kinds project = (.error e, .folder f) := by
  unfold readBy load
  dsimp only
  rw [h]
  rfl

/-- Calls of this store do not overlap. -/
def IsSerial (n : Nat) : RecordStore → Prop
  | memory _ => True
  | folder _ => n ≤ 1

/-- A project can be read by so many readers, with its kinds in this order. -/
structure IsSchedule (n : Nat) (s : RecordStore) (readers : Nat) (kinds : List EntityKind) :
    Prop where
  some_reader : 1 ≤ readers
  few : readers ≤ overlappingReads n
  all_kinds : kinds.Perm EntityKind.all
  in_order : s.IsSerial n → kinds = EntityKind.all

/-- Each way to read is given by a number of readers and an order of the kinds. -/
theorem Reads.exists_readBy (h : Reads d n project s result s') : ∃ readers kinds,
    IsSchedule n s readers kinds ∧ s.readBy d readers kinds project = (result, s') := by
  have one := Listing.one_le_overlappingReads n
  cases h with
  | memory m => exact ⟨1, _, ⟨Nat.le_refl 1, one, .refl _, fun _ => rfl⟩, rfl⟩
  | @listed f _ reached finished =>
    obtain ⟨readers, kinds, some_reader, few, perm, single, read⟩ := reached.isReadBy finished
    refine ⟨readers, kinds, ⟨some_reader, few, perm, single⟩, ?_⟩
    rw [readBy_folder_of_ok read.load, read.records]
  | @failed f _ e reached fails =>
    obtain ⟨rfl, unreadable⟩ := reached.load_of_fails fails
    exact ⟨1, _, ⟨Nat.le_refl 1, one, .refl _, fun _ => rfl⟩, readBy_folder_of_error (unreadable 1)⟩

/-- Any number of readers is possible, with the kinds in their order. -/
theorem reads_readBy (some_reader : 1 ≤ readers) (few : readers ≤ overlappingReads n)
    (s : RecordStore) : Reads d n project s (s.readBy d readers EntityKind.all project).1
      (s.readBy d readers EntityKind.all project).2 := by
  cases s with
  | memory m => exact .memory m
  | folder f =>
    cases hload : f.load d 1 project with
    | ok after =>
      obtain ⟨s, reached, finished, read⟩ :=
        Listing.exists_isReadBy (n := n) hload some_reader few
      rw [readBy_folder_of_ok read.load, ← read.records]
      exact .listed reached finished
    | error e =>
      obtain ⟨s, reached, fails⟩ := Listing.exists_fails (n := n) hload
      obtain ⟨store, unreadable⟩ := reached.load_of_fails fails
      have failed := Reads.failed reached fails
      rw [store] at failed
      rwa [readBy_folder_of_error (unreadable readers)]

/-! ## What ways to read have in common -/

/-- What each reader of a project reports: the warnings of its file, if the project is not kept and
can be read. -/
def unreported (d : Disk) (project : String) : RecordStore → List LoadWarning
  | memory _ => []
  | folder f =>
    if (f.file? project).isSome then []
    else
      match f.projectPath project with
      | .error _ => []
      | .ok path =>
        match d.readText path with
        | .error _ => []
        | .ok content => RecordFile.warnings project content.toList

theorem unreported_of_found {file : ProjectFile} (found : f.file? project = some file) :
    (folder f).unreported d project = [] := by
  unfold unreported
  dsimp only
  rw [found]
  rfl

theorem unreported_of_missing {content : String} (missing : f.file? project = none)
    (valid : isProjectName project = true)
    (hread : d.readText (Path.join f.directory (RecordFolder.fileName project)) = .ok content) :
    (folder f).unreported d project = RecordFile.warnings project content.toList := by
  unfold unreported RecordFolder.projectPath
  dsimp only
  rw [missing, Option.isSome_none, if_neg Bool.false_ne_true, if_pos valid]
  dsimp only
  rw [hread]

/-- If readers have something to report, they can read the project. -/
theorem exists_content_of_unreported (h : (folder f).unreported d project ≠ []) :
    f.file? project = none ∧ isProjectName project = true ∧ ∃ content,
      d.readText (Path.join f.directory (RecordFolder.fileName project)) = .ok content := by
  unfold unreported at h
  dsimp only at h
  split at h
  · exact absurd rfl h
  rename_i missing
  split at h
  · exact absurd rfl h
  rename_i path hpath
  split at h
  · exact absurd rfl h
  rename_i content hread
  obtain ⟨valid, rfl⟩ := Listing.projectPath_eq_ok hpath
  exact ⟨by simpa using missing, valid, content, hread⟩

/-- Readers read the same, and each of them reports what is unreported. -/
theorem load_cases (f : RecordFolder) (d : Disk) (project : String) :
    (∃ e, ∀ readers, f.load d readers project = .error e) ∨
      ∃ files, ∀ readers, f.load d readers project = .ok { f with
        files, warnings := f.warnings ++
          (List.replicate readers ((folder f).unreported d project)).flatten } := by
  cases hload : f.load d 1 project with
  | error e =>
    obtain ⟨s, reached, fails⟩ := Listing.exists_fails (n := 1) hload
    exact .inl ⟨e, (reached.load_of_fails fails).2⟩
  | ok after =>
    rcases RecordFolder.keepsMore_of_load hload with ⟨-, file, found⟩ | ⟨new, rfl, more⟩
    · refine .inr ⟨f.files, fun readers => ?_⟩
      rw [Listing.load_of_found found, unreported_of_found found]
      simp
    · obtain ⟨content, hread, -⟩ := more.read
      refine .inr ⟨f.files ++ [Listing.file new.project content], fun readers => ?_⟩
      rw [unreported_of_missing more.absent more.named hread]
      exact Listing.load_of_missing more.absent more.named hread readers

theorem project_of_mem_unreported {warning : LoadWarning} {s : RecordStore}
    (h : warning ∈ s.unreported d project) : warning.project = project := by
  cases s with
  | memory m => cases h
  | folder f =>
    unfold unreported at h
    dsimp only at h
    split at h
    · cases h
    split at h
    · cases h
    split at h
    · cases h
    · exact Listing.project_of_mem_warnings h

/-- If calls do not overlap, there is one way to read. -/
theorem Reads.unique {result' : Except Error (List EntityRecord)} {s₁ s₂ : RecordStore}
    (serial : s.IsSerial n) (h : Reads d n project s result s₁)
    (h' : Reads d n project s result' s₂) : result' = result ∧ s₂ = s₁ := by
  obtain ⟨readers, kinds, schedule, read⟩ := h.exists_readBy
  obtain ⟨readers', kinds', schedule', read'⟩ := h'.exists_readBy
  have same : s.readBy d readers' kinds' project = s.readBy d readers kinds project := by
    rw [schedule.in_order serial, schedule'.in_order serial]
    cases s with
    | memory m => rfl
    | folder f =>
      have single : n ≤ 1 := serial
      have one (r : Nat) (some_reader : 1 ≤ r) (few : r ≤ overlappingReads n) : r = 1 := by
        rw [overlappingReads] at few
        omega
      rw [one readers schedule.some_reader schedule.few,
        one readers' schedule'.some_reader schedule'.few]
  rw [read, read'] at same
  exact ⟨congrArg Prod.fst same, congrArg Prod.snd same⟩

end RecordStore

/-- Two lists of warnings that builds of one project give. Those of its file come first, and the
block that each reader reports may stand there several times. Those of records without a name follow,
in some order. All else is the same. -/
inductive SameWarnings (n : Nat) (block : List LoadWarning) :
    List BuildWarning → List BuildWarning → Prop
  | mk {earlier : List LoadWarning} {j k : Nat} {unnamed unnamed' : List EntityKind}
      {rest : List BuildWarning} :
      1 ≤ j → j ≤ RecordStore.overlappingReads n → 1 ≤ k → k ≤ RecordStore.overlappingReads n →
      unnamed.Perm unnamed' →
      SameWarnings n block
        ((earlier ++ (List.replicate j block).flatten).map .malformedRecord ++
          (unnamed.map .unnamedRecord ++ rest))
        ((earlier ++ (List.replicate k block).flatten).map .malformedRecord ++
          (unnamed'.map .unnamedRecord ++ rest))

namespace SameWarnings

variable {n : Nat} {block : List LoadWarning} {ws ws' : List BuildWarning}

theorem append (h : SameWarnings n block ws ws') (more : List BuildWarning) :
    SameWarnings n block (ws ++ more) (ws' ++ more) := by
  cases h with
  | mk hj hj' hk hk' perm =>
    simp only [List.append_assoc]
    exact .mk hj hj' hk hk' perm

theorem refl (n : Nat) (ws : List BuildWarning) : SameWarnings n [] ws ws := by
  have one := Listing.one_le_overlappingReads n
  have same : SameWarnings n []
      (([] ++ (List.replicate 1 []).flatten).map .malformedRecord ++ ([].map .unnamedRecord ++ ws))
      (([] ++ (List.replicate 1 []).flatten).map .malformedRecord ++ ([].map .unnamedRecord ++ ws)) :=
    .mk (Nat.le_refl 1) one (Nat.le_refl 1) one (.refl [])
  exact same

/-- If readers have nothing to report, only the order may differ. -/
theorem perm (h : SameWarnings n [] ws ws') : ws.Perm ws' := by
  have nothing (k : Nat) : (List.replicate k ([] : List LoadWarning)).flatten = [] := by simp
  cases h with
  | mk _ _ _ _ perm =>
    rw [nothing, nothing]
    exact ((perm.map _).append_right _).append_left _

end SameWarnings

/-- Two ordered graphs are the same, with warnings that are the same in some way. -/
structure OrderedGraph.Alike (same : List BuildWarning → List BuildWarning → Prop)
    (o o' : OrderedGraph) : Prop where
  graph : o'.graph = o.graph
  cycles : o'.cycles = o.cycles
  warnings : same o.warnings o'.warnings

/-- What follows a build depends on its graph only. -/
theorem alike_ofBuild {n : Nat} {block : List LoadWarning} {out out' : BuildOutput}
    (graph : out'.graph = out.graph)
    (warnings : SameWarnings n block out.warnings out'.warnings) :
    (OrderedGraph.ofBuild out).Alike (SameWarnings n block) (.ofBuild out') := by
  unfold OrderedGraph.ofBuild
  rw [graph]
  exact ⟨rfl, rfl, warnings.append _⟩

namespace RecordStore

variable {d : Disk} {n : Nat} {project : String} {s : RecordStore}

/-- The warnings of a build over a folder of which so many readers have read a project, with its kinds
in some order. -/
theorem exists_warnings_output (f : RecordFolder) (files : List ProjectFile)
    {block : List LoadWarning} (own : ∀ w ∈ block, w.project = project) :
    ∃ rest, ∀ (readers : Nat) (kinds : List EntityKind), kinds.Perm EntityKind.all →
      ((folder { f with
        files, warnings := f.warnings ++ (List.replicate readers block).flatten }).output project
          (inKinds kinds (RecordFolder.records { f with
            files, warnings := f.warnings ++ (List.replicate readers block).flatten }
              project))).warnings =
        (f.loadWarnings project ++ (List.replicate readers block).flatten).map .malformedRecord ++
          ((((inKinds kinds (RecordFolder.records { f with files } project)).filter fun r =>
            !r.isNamed).map EntityRecord.kind).map .unnamedRecord ++ rest) := by
  obtain ⟨rest, hrest⟩ := Build.exists_warnings_inKinds
    (RecordFolder.records { f with files } project)
  refine ⟨rest, fun readers kinds perm => ?_⟩
  have lines : RecordFolder.loadWarnings
      { f with files, warnings := f.warnings ++ (List.replicate readers block).flatten } project =
        f.loadWarnings project ++ (List.replicate readers block).flatten := by
    unfold RecordFolder.loadWarnings
    dsimp only
    rw [List.filter_append, List.filter_flatten, List.map_replicate,
      List.filter_eq_self.2 fun w hw => decide_eq_true (own w hw)]
  rw [List.map_map, ← lines]
  exact congrArg (_ ++ ·) (hrest kinds perm)

/-- Two ways to read a project both fail, or lead to the same graph and leave the same records. -/
theorem Reads.alike {result result' : Except Error (List EntityRecord)} {s₁ s₂ : RecordStore}
    (h : Reads d n project s result s₁) (h' : Reads d n project s result' s₂) :
    (∃ e, result = .error e ∧ result' = .error e ∧ s₁ = s ∧ s₂ = s) ∨
      ∃ rs rs', result = .ok rs ∧ result' = .ok rs' ∧ SameRecords s₁ s₂ ∧
        (OrderedGraph.ofBuild (s₁.output project rs)).Alike
          (SameWarnings n (s.unreported d project)) (.ofBuild (s₂.output project rs')) := by
  cases s with
  | memory m =>
    have serial : RecordStore.IsSerial n (.memory m) := trivial
    obtain ⟨rfl, rfl⟩ := h.unique serial h'
    cases h
    cases (EntityKind.all.mapM (m.list project ·)).map List.flatten with
    | error e => exact .inl ⟨e, rfl, rfl, rfl, rfl⟩
    | ok rs =>
      exact .inr ⟨rs, rs, rfl, rfl, .memory m, alike_ofBuild rfl (.refl n _)⟩
  | folder f =>
    obtain ⟨readers, kinds, schedule, read⟩ := h.exists_readBy
    obtain ⟨readers', kinds', schedule', read'⟩ := h'.exists_readBy
    rcases load_cases f d project with ⟨e, fails⟩ | ⟨files, loads⟩
    · cases (readBy_folder_of_error (fails readers)).symm.trans read
      cases (readBy_folder_of_error (fails readers')).symm.trans read'
      exact .inl ⟨e, rfl, rfl, rfl, rfl⟩
    · cases (readBy_folder_of_ok (loads readers)).symm.trans read
      cases (readBy_folder_of_ok (loads readers')).symm.trans read'
      refine .inr ⟨_, _, rfl, rfl, .folder rfl rfl, alike_ofBuild ?_ ?_⟩
      · exact (Build.graph_inKinds schedule'.all_kinds _).trans
          (Build.graph_inKinds schedule.all_kinds _).symm
      · obtain ⟨rest, hwarnings⟩ := exists_warnings_output f files
          fun w hw => project_of_mem_unreported hw
        rw [hwarnings readers kinds schedule.all_kinds,
          hwarnings readers' kinds' schedule'.all_kinds]
        have perm := (Build.inKinds_perm schedule.all_kinds _).trans
          (Build.inKinds_perm schedule'.all_kinds (RecordFolder.records { f with files } project)).symm
        exact .mk schedule.some_reader schedule.few schedule'.some_reader schedule'.few
          ((perm.filter _).map _)

/-- Any number of readers can read a project that is not kept. -/
theorem reads_of_missing {content : String} (missing : f.file? project = none)
    (valid : isProjectName project = true)
    (hread : d.readText (Path.join f.directory (RecordFolder.fileName project)) = .ok content)
    {readers : Nat} (some_reader : 1 ≤ readers) (few : readers ≤ overlappingReads n) :
    Reads d n project (folder f) (.ok (byKind (RecordFile.records content.toList)))
      (folder (Listing.grown f project content readers)) := by
  have reads : Reads d n project (folder f) _ _ := reads_readBy some_reader few (.folder f)
  have records : (Listing.grown f project content readers).records project =
      RecordFile.records content.toList :=
    RecordFolder.records_of_file? (Listing.file?_kept missing content readers)
  rw [readBy_folder_of_ok (Listing.load_of_missing missing valid hread readers), records] at reads
  exact reads

/-- Ways to read differ in how often the warnings of the file stand before all others. -/
theorem warnings_grown (f : RecordFolder) (project content : String) (k : Nat)
    (rs : List EntityRecord) :
    (OrderedGraph.ofBuild ((folder (Listing.grown f project content k)).output project
      rs)).warnings =
        (f.loadWarnings project ++ Listing.copies project content k).map .malformedRecord ++
          (OrderedGraph.ofBuild (Build.ofRecords rs)).warnings := by
  rw [← Listing.loadWarnings_grown]
  exact List.append_assoc _ _ _

/-- If readers have something to report and calls can overlap, some ways to read report it more often
than others. -/
theorem exists_reads_apart (many : 1 < n) (h : s.unreported d project ≠ []) :
    ∃ rs s₁ rs' s₂, Reads d n project s (.ok rs) s₁ ∧ Reads d n project s (.ok rs') s₂ ∧
      ¬ (OrderedGraph.ofBuild (s₁.output project rs)).warnings.Perm
        (OrderedGraph.ofBuild (s₂.output project rs')).warnings := by
  cases s with
  | memory m => exact absurd rfl h
  | folder f =>
    obtain ⟨missing, valid, content, hread⟩ := exists_content_of_unreported h
    rw [unreported_of_missing missing valid hread] at h
    have two : 2 ≤ overlappingReads n := Nat.le_min.2 ⟨le_max_of_le_left many, by decide⟩
    refine ⟨_, _, _, _, reads_of_missing missing valid hread (Nat.le_refl 1) (Nat.le_of_succ_le two),
      reads_of_missing missing valid hread (by decide) two, fun perm => ?_⟩
    have lengths := perm.length_eq
    rw [warnings_grown, warnings_grown] at lengths
    have positive := List.length_pos_iff.2 h
    simp only [List.length_append, List.length_map, Listing.copies, List.length_flatten,
      List.map_replicate, List.sum_replicate, smul_eq_mul] at lengths
    omega

end RecordStore

/-! ## Ways to build -/

/-- Two reports of builds are the same, with warnings that are the same in some way. -/
structure BuildReport.Alike (same : List BuildWarning → List BuildWarning → Prop)
    (r r' : BuildReport) : Prop where
  project : r'.project = r.project
  ordered : r.ordered.Alike same r'.ordered
  writeBack : r'.writeBack = r.writeBack
  sync : r'.sync = r.sync

namespace Workspace

variable {w w' w₁ w₂ : Workspace} {n : Nat} {project : String} {dryRun : Bool}
  {copy : Option (SyncLimits × String)} {result result' : Except Error BuildReport}

/-- What a build does that has read these records, with its store as it is then. -/
def afterReading (w : Workspace) (project : String) (dryRun : Bool)
    (copy : Option (SyncLimits × String)) (s : RecordStore) (rs : List EntityRecord) :
    BuildReport × Workspace :=
  finish { w with records := s } project dryRun copy (.ofBuild (s.output project rs))

/-- What can come of a build: it reads the project in one of many ways, and goes on by itself from
there. -/
inductive Builds (w : Workspace) (n : Nat) (project : String) (dryRun : Bool)
    (copy : Option (SyncLimits × String)) : Except Error BuildReport → Workspace → Prop
  | failed {e : Error} {s : RecordStore} :
      RecordStore.Reads w.disk n project w.records (.error e) s →
      Builds w n project dryRun copy (.error e) { w with records := s }
  | ended {rs : List EntityRecord} {s : RecordStore} :
      RecordStore.Reads w.disk n project w.records (.ok rs) s →
      Builds w n project dryRun copy (.ok (w.afterReading project dryRun copy s rs).1)
        (w.afterReading project dryRun copy s rs).2

/-- One way to build is that in which as many calls as can find the project absent do, and then end
one after another. -/
theorem builds_build (w : Workspace) (n : Nat) (project : String) (dryRun : Bool)
    (copy : Option (SyncLimits × String)) :
    w.Builds n project dryRun copy (w.build n project dryRun copy).1
      (w.build n project dryRun copy).2 := by
  have reads : RecordStore.Reads w.disk n project w.records
      (w.records.readProject w.disk n project).1 (w.records.readProject w.disk n project).2 :=
    RecordStore.reads_readBy (Listing.one_le_overlappingReads n) (Nat.le_refl _) w.records
  unfold build buildGraph RecordStore.buildGraph
  generalize w.records.readProject w.disk n project = read at reads ⊢
  obtain ⟨e | rs, s⟩ := read
  · exact .failed reads
  · exact .ended reads

/-- Two workspaces differ in nothing but the warnings that their stores have met. -/
structure SameFiles (w w' : Workspace) : Prop where
  disk : w'.disk = w.disk
  records : RecordStore.SameRecords w.records w'.records
  graphStore : w'.graphStore = w.graphStore

/-- Builds that have read alike go on alike. -/
theorem SameFiles.finish {same : List BuildWarning → List BuildWarning → Prop}
    {o o' : OrderedGraph} (h : SameFiles w w') (alike : o.Alike same o') (project : String)
    (dryRun : Bool) (copy : Option (SyncLimits × String)) :
    (w.finish project dryRun copy o).1.Alike same (w'.finish project dryRun copy o').1 ∧
      SameFiles (w.finish project dryRun copy o).2 (w'.finish project dryRun copy o').2 := by
  obtain ⟨d, s, g⟩ := w
  obtain ⟨d', s', g'⟩ := w'
  obtain ⟨rfl, same_records, rfl⟩ := h
  obtain ⟨reports, same_records', disks⟩ := same_records.writeBack d' project o.graph dryRun
  unfold Workspace.finish writeBack
  rw [alike.graph]
  dsimp only
  rw [reports, disks]
  cases copy with
  | none => exact ⟨⟨rfl, alike, rfl, rfl⟩, ⟨rfl, same_records', rfl⟩⟩
  | some copy =>
    cases dryRun with
    | true => exact ⟨⟨rfl, alike, rfl, rfl⟩, ⟨rfl, same_records', rfl⟩⟩
    | false => exact ⟨⟨rfl, alike, rfl, rfl⟩, ⟨rfl, same_records', rfl⟩⟩

/-- Two builds of a project, dry or not, both fail with one error and leave the workspace as it was, or
both have read. -/
theorem Builds.both {dryRun' : Bool} {copy' : Option (SyncLimits × String)}
    (h : w.Builds n project dryRun copy result w₁)
    (h' : w.Builds n project dryRun' copy' result' w₂) :
    (∃ e, result = .error e ∧ result' = .error e ∧ w₁ = w ∧ w₂ = w) ∨
      ∃ rs s rs' s', RecordStore.Reads w.disk n project w.records (.ok rs) s ∧
        RecordStore.Reads w.disk n project w.records (.ok rs') s' ∧
        result = .ok (w.afterReading project dryRun copy s rs).1 ∧
        w₁ = (w.afterReading project dryRun copy s rs).2 ∧
        result' = .ok (w.afterReading project dryRun' copy' s' rs').1 ∧
        w₂ = (w.afterReading project dryRun' copy' s' rs').2 := by
  cases h with
  | failed reads =>
    cases h' with
    | failed reads' =>
      rcases reads.alike reads' with ⟨e, hresult, hresult', rfl, rfl⟩ | ⟨rs, _, hresult, -⟩
      · cases hresult
        cases hresult'
        exact .inl ⟨_, rfl, rfl, rfl, rfl⟩
      · cases hresult
    | ended reads' =>
      rcases reads.alike reads' with ⟨e, -, hresult', -⟩ | ⟨rs, _, hresult, -⟩
      · cases hresult'
      · cases hresult
  | ended reads =>
    cases h' with
    | failed reads' =>
      rcases reads.alike reads' with ⟨e, hresult, -⟩ | ⟨rs, _, -, hresult', -⟩
      · cases hresult
      · cases hresult'
    | ended reads' => exact .inr ⟨_, _, _, _, reads, reads', rfl, rfl, rfl, rfl⟩

/-- Two ways to build both fail with one error and leave the workspace as it was, or they come to the
same graph, write the same orders back, copy the same graph, and leave the same files. Their warnings
are the same, but that those of the file may be repeated and those of records without a name moved. -/
theorem Builds.alike (h : w.Builds n project dryRun copy result w₁)
    (h' : w.Builds n project dryRun copy result' w₂) :
    (∃ e, result = .error e ∧ result' = .error e ∧ w₁ = w ∧ w₂ = w) ∨
      ∃ report report', result = .ok report ∧ result' = .ok report' ∧
        report.Alike (SameWarnings n (w.records.unreported w.disk project)) report' ∧
        SameFiles w₁ w₂ := by
  rcases h.both h' with failed | ⟨rs, s, rs', s', reads, reads', rfl, rfl, rfl, rfl⟩
  · exact .inl failed
  rcases reads.alike reads' with ⟨e, hresult, -⟩ | ⟨_, _, hresult, hresult', same, alike⟩
  · cases hresult
  cases hresult
  cases hresult'
  have files : SameFiles { w with records := s } { w with records := s' } := ⟨rfl, same, rfl⟩
  exact .inr ⟨_, _, rfl, rfl, files.finish alike project dryRun copy⟩

end Workspace

end LayerGraph
