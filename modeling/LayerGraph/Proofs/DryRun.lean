import LayerGraph.Proofs.BuildRuns

/-!
# Dry runs

A dry run reports what the real run reports, and changes nothing. It reads, so a store over a folder
may keep one more project after it. Where calls that read overlap, the two runs may report the
warnings of the project's file a different number of times.

Main statement: `Workspace.dry_run_previews`, what a dry run and the real run have in common, what
the dry run leaves alone, and when the warnings are the same.
-/

namespace LayerGraph

/-- The dry run reports what the real run reports, but that nothing is written, saved or copied. -/
structure BuildReport.Previews (same : List BuildWarning → List BuildWarning → Prop)
    (dry real : BuildReport) : Prop where
  project : dry.project = real.project
  ordered : dry.ordered.Alike same real.ordered
  assignments : dry.writeBack.assignments = real.writeBack.assignments
  written : dry.writeBack.written = 0
  skipped : dry.writeBack.skipped = []
  saveError : dry.writeBack.saveError = none
  sync : dry.sync = none

/-- Both runs fail alike, or the dry run reports what the real one does. -/
inductive Agrees (same : List BuildWarning → List BuildWarning → Prop) :
    Except Error BuildReport → Except Error BuildReport → Prop
  | failed (e : Error) : Agrees same (.error e) (.error e)
  | reported {dry real : BuildReport} : dry.Previews same real → Agrees same (.ok dry) (.ok real)

theorem Agrees.mono {same same' : List BuildWarning → List BuildWarning → Prop}
    {dry real : Except Error BuildReport} (h : Agrees same dry real)
    (weaker : ∀ ws ws', same ws ws' → same' ws ws') : Agrees same' dry real := by
  cases h with
  | failed e => exact .failed e
  | reported previews =>
    obtain ⟨graph, cycles, warnings⟩ := previews.ordered
    exact .reported { previews with ordered := ⟨graph, cycles, weaker _ _ warnings⟩ }

namespace Workspace

variable {w w' w₁ w₂ : Workspace} {n : Nat} {project : String}
  {copy : Option (SyncLimits × String)} {dry real : Except Error BuildReport}

/-- Nothing in the workspace has changed: not a file, not a row of the graph store, nothing in a
store in memory, its counts included. A store over a folder may have read one more project; what it
kept it still keeps, nothing more waits to be saved, and it answers each call as before. -/
structure Undisturbed (w w' : Workspace) : Prop where
  disk : w'.disk = w.disk
  graphStore : w'.graphStore = w.graphStore
  memory : ∀ m, w.records = .memory m → w'.records = .memory m
  folder : ∀ f, w.records = .folder f → ∃ f', w'.records = .folder f' ∧
    f'.directory = f.directory ∧ f.files <+: f'.files ∧ f'.dirtyProjects = f.dirtyProjects
  answers : ∀ c, (w'.records.answer w.disk c).1 = (w.records.answer w.disk c).1 ∧
    (w'.records.answer w.disk c).2.2 = (w.records.answer w.disk c).2.2

theorem undisturbed_of_hasRead {s : RecordStore} (h : RecordStore.HasRead w.disk w.records s) :
    Undisturbed w { w with records := s } where
  disk := rfl
  graphStore := rfl
  memory m hm := by
    rw [hm] at h
    cases h
    rfl
  folder f hf := by
    rw [hf] at h
    cases h with
    | same => exact ⟨f, rfl, rfl, List.prefix_refl _, rfl⟩
    | more more =>
      exact ⟨_, rfl, more.directory, ⟨_, more.files.symm⟩, more.dirtyProjects⟩
  answers := h.answer

/-- A dry run ends where it has read. -/
theorem finish_dry (w : Workspace) (project : String) (copy : Option (SyncLimits × String))
    (o : OrderedGraph) : w.finish project true copy o =
      ({ project, ordered := o, sync := none
         writeBack := { assignments := o.graph.assignments, dryRun := true } }, w) := by
  cases copy <;> rfl

theorem finish_real (w : Workspace) (project : String) (copy : Option (SyncLimits × String))
    (o : OrderedGraph) :
    (w.finish project false copy o).1.project = project ∧
      (w.finish project false copy o).1.ordered = o ∧
      (w.finish project false copy o).1.writeBack.assignments = o.graph.assignments := by
  cases copy <;> exact ⟨rfl, rfl, rfl⟩

/-- What a dry run and a real run report that have read alike. -/
theorem previews_of_alike {same : List BuildWarning → List BuildWarning → Prop}
    {o o' : OrderedGraph} (alike : o.Alike same o') (w w' : Workspace) (project : String)
    (copy : Option (SyncLimits × String)) :
    (w.finish project true copy o).1.Previews same (w'.finish project false copy o').1 := by
  obtain ⟨same_project, same_ordered, assignments⟩ := finish_real w' project copy o'
  rw [finish_dry]
  refine ⟨same_project.symm, by rwa [same_ordered], ?_, rfl, rfl, rfl, rfl⟩
  rw [assignments, alike.graph]

/-- The dry run agrees with the real one as far as the warnings of what both can have read do. -/
theorem Builds.agrees {same : List BuildWarning → List BuildWarning → Prop}
    (h : w.Builds n project true copy dry w₁) (h' : w.Builds n project false copy real w₂)
    (alike : ∀ {rs rs' s s'}, RecordStore.Reads w.disk n project w.records (.ok rs) s →
      RecordStore.Reads w.disk n project w.records (.ok rs') s' →
      (OrderedGraph.ofBuild (s.output project rs)).Alike same (.ofBuild (s'.output project rs'))) :
    Agrees same dry real := by
  rcases h.both h' with ⟨e, rfl, rfl, -⟩ | ⟨rs, s, rs', s', reads, reads', rfl, -, rfl, -⟩
  · exact .failed e
  · exact .reported (previews_of_alike (alike reads reads') _ _ project copy)

theorem Builds.undisturbed (h : w.Builds n project true copy dry w₁) : Undisturbed w w₁ := by
  have read {result : Except Error (List EntityRecord)} {s : RecordStore}
      (reads : RecordStore.Reads w.disk n project w.records result s) :
      Undisturbed w { w with records := s } := by
    obtain ⟨readers, kinds, -, hread⟩ := reads.exists_readBy
    have left := RecordStore.hasRead_readBy w.disk readers kinds project w.records
    rw [hread] at left
    exact undisturbed_of_hasRead left
  cases h with
  | failed reads => exact read reads
  | ended reads =>
    rw [afterReading, finish_dry]
    exact read reads

/-- A dry run and a real run of each workspace come to an end. They agree, whichever writes, saves or
copies of the real one fail and however the calls that read overlap, and the dry run leaves the
workspace undisturbed. If the calls cannot overlap, the warnings are the same. If they can, it is
certain just if readers have nothing to report that the runs give the same warnings equally often. -/
theorem dry_run_previews (w : Workspace) (n : Nat) (project : String)
    (copy : Option (SyncLimits × String)) :
    (∀ dryRun, ∃ result w', w.Builds n project dryRun copy result w') ∧
    (∀ dry w₁ real w₂, w.Builds n project true copy dry w₁ → w.Builds n project false copy real w₂ →
      Agrees (SameWarnings n (w.records.unreported w.disk project)) dry real ∧ Undisturbed w w₁) ∧
    (w.records.IsSerial n → ∀ dry w₁ real w₂, w.Builds n project true copy dry w₁ →
      w.Builds n project false copy real w₂ → Agrees Eq dry real) ∧
    ((∀ dry w₁ real w₂, w.Builds n project true copy dry w₁ →
        w.Builds n project false copy real w₂ → Agrees List.Perm dry real) ↔
      n ≤ 1 ∨ w.records.unreported w.disk project = []) := by
  have agrees {dry real : Except Error BuildReport} {w₁ w₂ : Workspace}
      (h : w.Builds n project true copy dry w₁) (h' : w.Builds n project false copy real w₂) :
      Agrees (SameWarnings n (w.records.unreported w.disk project)) dry real := by
    refine h.agrees h' fun reads reads' => ?_
    rcases reads.alike reads' with ⟨e, hresult, -⟩ | ⟨_, _, hresult, hresult', -, alike⟩
    · cases hresult
    · cases hresult
      cases hresult'
      exact alike
  have equal (serial : w.records.IsSerial n) {dry real : Except Error BuildReport}
      {w₁ w₂ : Workspace} (h : w.Builds n project true copy dry w₁)
      (h' : w.Builds n project false copy real w₂) : Agrees Eq dry real := by
    refine h.agrees h' fun reads reads' => ?_
    obtain ⟨hresult, rfl⟩ := reads.unique serial reads'
    cases hresult
    exact ⟨rfl, rfl, rfl⟩
  refine ⟨fun dryRun => ⟨_, _, w.builds_build n project dryRun copy⟩,
    fun dry w₁ real w₂ h h' => ⟨agrees h h', h.undisturbed⟩,
    fun serial dry w₁ real w₂ h h' => equal serial h h', fun once => ?_,
    fun or dry w₁ real w₂ h h' => ?_⟩
  · by_contra neither
    obtain ⟨many, some_line⟩ := not_or.1 neither
    obtain ⟨rs, s, rs', s', reads, reads', apart⟩ :=
      RecordStore.exists_reads_apart (Nat.lt_of_not_le many) some_line
    have same := once _ _ _ _ (.ended reads) (.ended reads')
    rw [afterReading, finish_dry] at same
    cases same with
    | reported previews =>
      have warnings := previews.ordered.warnings
      rw [afterReading, (finish_real _ _ _ _).2.1] at warnings
      exact apart warnings
  · cases or with
    | inl single =>
      have serial : w.records.IsSerial n := by
        cases w.records with
        | memory m => trivial
        | folder f => exact single
      exact (equal serial h h').mono fun _ _ same => same ▸ .refl _
    | inr nothing =>
      have same := agrees h h'
      rw [nothing] at same
      exact same.mono fun _ _ => SameWarnings.perm

/-- A workspace over a folder with a file of one line, which is no record. -/
def brokenWorkspace : Workspace where
  disk := Listing.brokenDisk
  records := .folder { directory := "records" }
  graphStore := { place := .nowhere }

/-- Its store after so many readers have read the project. -/
def brokenFolder (readers : Nat) : RecordFolder :=
  Listing.grown { directory := "records" } "demo" "not json\n" readers

/-- If two calls can overlap, the dry run can report the line once and the real run twice. -/
theorem dry_run_repeats_less : ∃ dry w₁ real w₂,
    brokenWorkspace.Builds 2 "demo" true none (.ok dry) w₁ ∧
    brokenWorkspace.Builds 2 "demo" false none (.ok real) w₂ ∧
    dry.ordered.warnings = [.malformedRecord Listing.brokenLine] ∧
    real.ordered.warnings =
      [.malformedRecord Listing.brokenLine, .malformedRecord Listing.brokenLine] := by
  have once := RecordStore.reads_of_missing (f := { directory := "records" }) (n := 2) rfl rfl
    Listing.readText_brokenDisk (Nat.le_refl 1) (by decide)
  have twice := RecordStore.reads_of_missing (f := { directory := "records" }) (n := 2) rfl rfl
    Listing.readText_brokenDisk (by decide : 1 ≤ 2) (by decide)
  have nothing : byKind (RecordFile.records "not json\n".toList) = [] := by rfl
  have no_others : (OrderedGraph.ofBuild (Build.ofRecords [])).warnings = [] := by cbv
  have lines (k : Nat) : Listing.copies "demo" "not json\n" k =
      (List.replicate k [Listing.brokenLine]).flatten := by
    rw [Listing.copies, Listing.warnings_brokenLine]
  rw [nothing] at once twice
  refine ⟨(brokenWorkspace.afterReading "demo" true none (.folder (brokenFolder 1)) []).1, _,
    (brokenWorkspace.afterReading "demo" false none (.folder (brokenFolder 2)) []).1, _,
    .ended once, .ended twice, ?_, ?_⟩
  · rw [afterReading, finish_dry]
    dsimp only
    rw [brokenFolder, RecordStore.warnings_grown, no_others, lines]
    rfl
  · rw [afterReading, (finish_real _ _ _ _).2.1, brokenFolder, RecordStore.warnings_grown,
      no_others, lines]
    rfl

end Workspace

end LayerGraph
