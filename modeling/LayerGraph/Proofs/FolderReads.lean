import LayerGraph.Proofs.FolderMemory

/-!
# Folders that have read

Reading a project leaves a store over a folder as it was, or with one more project that it keeps.
That project is kept as its file has it, so all calls are answered as before, and what they save is
the same.

Main statements:
1. `RecordFolder.keepsMore_of_load`: what reading leaves.
2. `RecordStore.HasRead.answer`: a store that has read answers each call as before.
-/

namespace LayerGraph

variable {d : Disk} {project : String}

/-! ## Folders that keep one more project -/

namespace RecordFolder

variable {f f' : RecordFolder} {file new : ProjectFile}

/-- The second store keeps one more project, as its file has it. -/
structure KeepsMore (d : Disk) (f f' : RecordFolder) (new : ProjectFile) : Prop where
  directory : f'.directory = f.directory
  files : f'.files = f.files ++ [new]
  absent : f.file? new.project = none
  clean : new.dirty = false
  named : isProjectName new.project = true
  read : ∃ content, d.readText (Path.join f.directory (fileName new.project)) = .ok content ∧
    new.records = RecordFile.records content.toList

theorem file?_of_append (hfiles : f'.files = f.files ++ [new]) (ne : project ≠ new.project) :
    f'.file? project = f.file? project := by
  have other : decide (new.project = project) = false := decide_eq_false (Ne.symm ne)
  unfold file?
  rw [hfiles, List.find?_append, List.find?_cons, other]
  exact Option.or_none

/-- Reading leaves a store as it was, or with one more project. -/
theorem keepsMore_of_load {readers : Nat} (h : f.load d readers project = .ok f') :
    (f' = f ∧ ∃ file, f.file? project = some file) ∨
      ∃ new, new.project = project ∧ KeepsMore d f f' new := by
  unfold load at h
  split at h
  · rename_i kept
    exact .inl ⟨(Except.ok.inj h).symm, Option.isSome_iff_exists.1 kept⟩
  · rename_i absent
    rw [Bool.not_eq_true, Option.isSome_eq_false_iff, Option.isNone_iff_eq_none] at absent
    unfold projectPath at h
    split at h
    · rename_i named
      simp only [bind, Except.bind] at h
      split at h
      · cases h
      · cases h
      · rename_i content hread
        cases h
        exact .inr ⟨_, rfl, rfl, rfl, absent, rfl, named, content, hread, rfl⟩
    · cases h

/-- The records that a project has for a store. -/
def recordsOf (f : RecordFolder) (d : Disk) (project : String) : Except Error (List EntityRecord) :=
  (f.load d 1 project).map (·.records project)

theorem recordsOf_of_kept (h : f.file? project = some file) :
    f.recordsOf d project = .ok file.records := by
  rw [recordsOf, load, h]
  exact congrArg Except.ok (records_of_file? h)

/-- The records of a project that is not kept are those of its file. -/
theorem recordsOf_of_absent (h : f.file? project = none) : f.recordsOf d project =
    if isProjectName project then
      match d.readText (Path.join f.directory (fileName project)) with
      | .error .notFound => .error (.projectNotFound project)
      | .error fault => .error (.file fault)
      | .ok content => .ok (RecordFile.records content.toList)
    else .error (.invalidProjectName project) := by
  unfold recordsOf load projectPath
  rw [h, if_neg (by simp)]
  split
  · simp only [bind, Except.bind]
    cases d.readText (Path.join f.directory (fileName project)) with
    | error fault => cases fault <;> rfl
    | ok content =>
      have kept (file : ProjectFile) (own : file.project = project) (warnings : List LoadWarning) :
          records { f with files := f.files ++ [file], warnings } project = file.records := by
        subst own
        exact records_of_file? (file?_keep h warnings)
      exact congrArg Except.ok (kept _ rfl _)
  · rfl

namespace KeepsMore

variable (h : KeepsMore d f f' new)

include h

theorem file?_self : f'.file? new.project = some new := by
  have missing := h.absent
  unfold file? at missing ⊢
  rw [h.files, List.find?_append, missing]
  simp

/-- Each project has the same records for both stores. -/
theorem recordsOf (project : String) : f'.recordsOf d project = f.recordsOf d project := by
  by_cases own : project = new.project
  · subst own
    obtain ⟨content, hread, hrecords⟩ := h.read
    rw [recordsOf_of_kept h.file?_self, recordsOf_of_absent h.absent, if_pos h.named, hread,
      hrecords]
  · have same := file?_of_append h.files own
    cases hfile : f.file? project with
    | some file => rw [recordsOf_of_kept hfile, recordsOf_of_kept (same.trans hfile)]
    | none => rw [recordsOf_of_absent hfile, recordsOf_of_absent (same.trans hfile), h.directory]

theorem dirtyProjects : f'.dirtyProjects = f.dirtyProjects := by
  unfold RecordFolder.dirtyProjects
  rw [h.files, List.filter_append, List.filter_cons_of_neg (by simp [h.clean]), List.filter_nil,
    List.append_nil]

end KeepsMore

/-- Saving writes the same files whether or not the store keeps a project that is not saved. -/
theorem saveProjects_of_append {names : List String} (hdirectory : f'.directory = f.directory)
    (hfiles : f'.files = f.files ++ [new]) (hnames : new.project ∉ names) :
    (f'.saveProjects d names).1 = (f.saveProjects d names).1 ∧
      (f'.saveProjects d names).2.2 = (f.saveProjects d names).2.2 := by
  induction names generalizing f f' d with
  | nil => exact ⟨rfl, rfl⟩
  | cons name rest ih =>
    obtain ⟨apart, others⟩ := List.ne_and_not_mem_of_not_mem_cons hnames
    have same : f'.file? name = f.file? name := file?_of_append hfiles (Ne.symm apart)
    unfold saveProjects
    rw [same]
    cases f.file? name with
    | none => exact ih hdirectory hfiles others
    | some file =>
      have writes : f'.writeFile d file = f.writeFile d file := by
        unfold writeFile
        rw [hdirectory]
      dsimp only
      rw [writes]
      cases f.writeFile d file with
      | mk failure d' =>
        cases failure with
        | some fault => exact ⟨rfl, rfl⟩
        | none =>
          refine ih hdirectory ?_ others
          simp [updateFile, hfiles, apart]

theorem KeepsMore.save (h : KeepsMore d f f' new) :
    (f'.save d).1 = (f.save d).1 ∧ (f'.save d).2.2 = (f.save d).2.2 := by
  unfold RecordFolder.save
  rw [h.dirtyProjects]
  refine saveProjects_of_append h.directory h.files fun hmem => ?_
  obtain ⟨file, hfile, heq⟩ := List.mem_map.1 (Sorted.mem_sort.1 hmem)
  exact file?_eq_none.1 h.absent file (List.mem_filter.1 hfile).1 heq

end RecordFolder

/-! ## Stores that have read -/

namespace RecordStore

variable {s s' : RecordStore}

/-- The second store is the first one after it may have read a project. -/
inductive HasRead (d : Disk) : RecordStore → RecordStore → Prop
  | same (s : RecordStore) : HasRead d s s
  | more {f f' : RecordFolder} {new : ProjectFile} :
      RecordFolder.KeepsMore d f f' new → HasRead d (folder f) (folder f')

theorem hasRead_load {readers : Nat} (h : s.load d readers project = .ok s') : HasRead d s s' := by
  cases s with
  | memory m =>
    cases h
    exact .same _
  | folder f =>
    have mapped : (f.load d readers project).map RecordStore.folder = .ok s' := h
    cases hload : f.load d readers project with
    | error e =>
      rw [hload] at mapped
      cases mapped
    | ok f' =>
      rw [hload] at mapped
      cases mapped
      rcases RecordFolder.keepsMore_of_load hload with ⟨rfl, -⟩ | ⟨new, -, more⟩
      · exact .same _
      · exact .more more

/-- Reading a project leaves a store that has read, also when it fails. -/
theorem hasRead_readBy (d : Disk) (readers : Nat) (kinds : List EntityKind) (project : String)
    (s : RecordStore) : HasRead d s (s.readBy d readers kinds project).2 := by
  unfold readBy
  cases hload : s.load d readers project with
  | error e => exact .same _
  | ok s' => exact hasRead_load hload

theorem fst_answer_list (f : RecordFolder) (d : Disk) (project : String) (kind : EntityKind) :
    ((folder f).answer d (.list project kind)).1 =
      match f.recordsOf d project with
      | .error e => .failed e
      | .ok rs => .listed (rs.filter (·.kind = kind)) := by
  rw [answer_list_folder, RecordFolder.recordsOf]
  cases f.load d 1 project <;> rfl

theorem fst_answer_writeOrder (f : RecordFolder) (d : Disk) (project : String) (kind : EntityKind)
    (name : String) (order : Int) (layer : Option Layer) :
    ((folder f).answer d (.writeOrder project kind name order layer)).1 =
      match f.recordsOf d project with
      | .error e => .failed e
      | .ok rs =>
        if (writeOrderOnto rs kind name order layer).isSome then .done
        else .failed (.refused (.noRecord kind name)) := by
  rw [answer_writeOrder_folder, RecordFolder.recordsOf]
  cases f.load d 1 project with
  | error e => rfl
  | ok f =>
    simp only [Except.map]
    cases writeOrderOnto (f.records project) kind name order layer <;> rfl

/-- Listing and writing leave the disk alone. -/
theorem disk_answer {c : Call} (h : c ≠ .save) (d : Disk) (s : RecordStore) :
    (s.answer d c).2.2 = d := by
  cases c with
  | list project kind =>
    unfold answer
    dsimp only
    split <;> rfl
  | writeOrder project kind name order layer =>
    unfold answer
    dsimp only
    split <;> rfl
  | save => exact absurd rfl h
  | reopen => rfl

/-- A store that has read answers each call as before, and the call leaves the same disk. -/
theorem HasRead.answer (h : HasRead d s s') (c : Call) :
    (s'.answer d c).1 = (s.answer d c).1 ∧ (s'.answer d c).2.2 = (s.answer d c).2.2 := by
  cases h with
  | same => exact ⟨rfl, rfl⟩
  | @more f f' new more =>
    cases c with
    | list project kind =>
      rw [fst_answer_list, fst_answer_list, more.recordsOf, disk_answer (by simp),
        disk_answer (by simp)]
      exact ⟨rfl, rfl⟩
    | writeOrder project kind name order layer =>
      rw [fst_answer_writeOrder, fst_answer_writeOrder, more.recordsOf, disk_answer (by simp),
        disk_answer (by simp)]
      exact ⟨rfl, rfl⟩
    | save =>
      obtain ⟨failures, disks⟩ := more.save
      unfold RecordStore.answer RecordStore.save
      dsimp only
      rw [failures, disks]
      cases (f.save d).1 <;> exact ⟨rfl, rfl⟩
    | reopen => exact ⟨rfl, rfl⟩

end RecordStore

end LayerGraph
