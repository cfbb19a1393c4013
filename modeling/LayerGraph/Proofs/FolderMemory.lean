import LayerGraph.Proofs.OtherFiles
import LayerGraph.Proofs.RecordSize
import LayerGraph.Proofs.StoreCalls
import LayerGraph.Proofs.WriteBackOutcome

/-!
# Folders and the memory that they stand for

A store over a folder reads a project when it is first asked for, keeps it, and writes it when it is
saved. All the time it stands for a memory: the one that has the records that are kept, and those of
the files of all other projects. Each call answers as that memory does, and preserves the relation
between the two, unless a file cannot be read or written.

Main statements: `StandsFor.list`, `StandsFor.writeOrder`, `StandsFor.save` and `StandsFor.reopen`,
one for each kind of call.
-/

namespace LayerGraph

namespace RecordFolder

/-- The records of a project's file, if it can be read. -/
def parsed? (directory : String) (d : Disk) (project : String) : Option (List EntityRecord) :=
  match d.readText (Path.join directory (fileName project)) with
  | .ok content => some (RecordFile.records content.toList)
  | .error _ => none

/-- No write is waiting to be saved. -/
def IsClean (f : RecordFolder) : Prop :=
  ∀ file ∈ f.files, file.dirty = false

/-- The files of these projects can be read and saved, as far as they are there. -/
def IsSound (directory : String) (projects : Set String) (d : Disk) : Prop :=
  ∀ p ∈ projects, d.readText (Path.join directory (fileName p)) = .error .notFound ∨
    (∃ content, d.readText (Path.join directory (fileName p)) = .ok content) ∧
      CanSave { directory } d p

/-- A project that is kept has the records that the memory has, and those of its file if there is
nothing to save. -/
structure Keeps (directory : String) (projects : Set String) (d : Disk) (m : MemoryStore)
    (file : ProjectFile) : Prop where
  named : file.project ∈ projects
  records : m.records? file.project = some file.records
  orders : ∀ r ∈ file.records, r.HasOrder64
  readable : ∃ content, d.readText (Path.join directory (fileName file.project)) = .ok content
  clean : file.dirty = false → parsed? directory d file.project = some file.records

/-- A store over a folder stands for a memory: what it keeps is what the memory has, and so is what
it would read of the projects that it does not keep. -/
structure StandsFor (directory : String) (projects : Set String) (f : RecordFolder) (d : Disk)
    (m : MemoryStore) : Prop where
  place : f.directory = directory
  valid : ∀ p ∈ projects, isProjectName p = true
  willing : m.IsWilling
  kept : ∀ file ∈ f.files, Keeps directory projects d m file
  absent : ∀ p ∈ projects, f.file? p = none → m.records? p = parsed? directory d p

variable {directory project : String} {projects : Set String} {f f' : RecordFolder}
  {d d' : Disk} {m : MemoryStore} {file : ProjectFile}

theorem mem_of_file? (h : f.file? project = some file) :
    file ∈ f.files ∧ file.project = project := by
  unfold file? at h
  exact ⟨List.mem_of_find?_eq_some h, by simpa using List.find?_some h⟩

theorem file?_eq_none : f.file? project = none ↔ ∀ file ∈ f.files, file.project ≠ project := by
  simp [file?]

theorem records_of_file? (h : f.file? project = some file) : f.records project = file.records := by
  simp [records, h]

/-- A fresh store stands for the memory that has the records of the files. -/
theorem standsFor_fresh (valid : ∀ p ∈ projects, isProjectName p = true) (willing : m.IsWilling)
    (starts : ∀ p ∈ projects, m.records? p = parsed? directory d p) :
    StandsFor directory projects { directory } d m where
  place := rfl
  valid := valid
  willing := willing
  kept := by simp
  absent p hp _ := starts p hp

/-! ## Reading -/

/-- What comes of reading a project: it is kept from then on, it is not there, or its file cannot be
read. -/
inductive LoadOutcome (directory : String) (projects : Set String) (d : Disk) (m : MemoryStore)
    (project : String) : Except Error RecordFolder → Prop
  | kept {f : RecordFolder} {file : ProjectFile} :
      StandsFor directory projects f d m → f.file? project = some file →
      LoadOutcome directory projects d m project (.ok f)
  | absent : m.records? project = none →
      LoadOutcome directory projects d m project (.error (.projectNotFound project))
  | fault {fault : FileFault} : fault ≠ .notFound →
      d.readText (Path.join directory (fileName project)) = .error fault →
      LoadOutcome directory projects d m project (.error (.file fault))

/-- A project that is read stays kept. -/
theorem StandsFor.keep (h : StandsFor directory projects f d m)
    (new : Keeps directory projects d m file) (warnings : List LoadWarning) :
    StandsFor directory projects { f with files := f.files ++ [file], warnings } d m where
  place := h.place
  valid := h.valid
  willing := h.willing
  kept other hmem := by
    cases List.mem_append.1 hmem with
    | inl old => exact h.kept other old
    | inr last =>
      obtain rfl := List.mem_singleton.1 last
      exact new
  absent p hp none := by
    refine h.absent p hp (file?_eq_none.2 fun other hmem => ?_)
    exact file?_eq_none.1 none other (List.mem_append_left _ hmem)

theorem file?_keep (hfile : f.file? file.project = none) (warnings : List LoadWarning) :
    file? { f with files := f.files ++ [file], warnings } file.project = some file := by
  have missing := file?_eq_none.1 hfile
  unfold file?
  rw [List.find?_append, List.find?_eq_none.2 (by simpa using missing)]
  simp

/-- Reading a project changes neither what the store stands for nor the disk. -/
theorem StandsFor.load (h : StandsFor directory projects f d m) (hp : project ∈ projects) :
    LoadOutcome directory projects d m project (f.load d 1 project) := by
  obtain rfl := h.place
  unfold RecordFolder.load
  cases hfile : f.file? project with
  | some file => exact .kept h hfile
  | none =>
    have start := h.absent project hp hfile
    rw [if_neg (by simp), projectPath, if_pos (h.valid project hp)]
    simp only [bind, Except.bind]
    unfold parsed? at start
    split
    · rename_i missing
      rw [missing] at start
      exact .absent start
    · rename_i fault other unreadable
      exact .fault other unreadable
    · rename_i content hread
      rw [hread] at start
      have new : Keeps f.directory projects d m
          { project, records := RecordFile.records content.toList } :=
        ⟨hp, start, fun _ hr => RecordFile.hasOrder64_of_mem hr, ⟨content, hread⟩,
          fun _ => by rw [parsed?, hread]⟩
      exact .kept (h.keep new _) (file?_keep hfile _)

/-! ## Answers -/

open RecordStore (Call Answer)

/-- What comes of a call: unless a file cannot be read or written, the memory answers it alike and
is stood for afterwards. Files that can be read and saved stay so, and do not make the call fail. -/
structure Agreement (directory : String) (projects : Set String) (d : Disk) (m : MemoryStore)
    (c : Call) (a : Answer) (f' : RecordFolder) (d' : Disk) : Prop where
  sound : IsSound directory projects d → a.isFault = false ∧ IsSound directory projects d'
  same : a.isFault = false → ∃ m' : MemoryStore,
    (∀ e : Disk, (RecordStore.memory m).answer e c = (a, .memory m', e)) ∧
      StandsFor directory projects f' d' m'

variable {c : Call} {a : Answer} {fault : FileFault} {kind : EntityKind} {name : String}
  {order : Int} {layer : Option Layer}

/-- A call that does not change the disk and that the memory answers alike. -/
theorem StandsFor.agreement {m' : MemoryStore} (h : StandsFor directory projects f' d m')
    (hfault : a.isFault = false)
    (hm : ∀ e : Disk, (RecordStore.memory m).answer e c = (a, .memory m', e)) :
    Agreement directory projects d m c a f' d :=
  ⟨fun sound => ⟨hfault, sound⟩, fun _ => ⟨m', hm, h⟩⟩

/-- A call that fails since a file cannot be read. -/
theorem agreement_of_fault (hp : project ∈ projects) (other : fault ≠ .notFound)
    (unreadable : d.readText (Path.join directory (fileName project)) = .error fault) :
    Agreement directory projects d m c (.failed (.file fault)) f' d := by
  refine ⟨fun sound => ?_, fun hfault => by cases hfault⟩
  cases sound project hp with
  | inl missing =>
    rw [unreadable] at missing
    exact absurd (Except.error.inj missing) other
  | inr there =>
    obtain ⟨⟨content, hread⟩, -⟩ := there
    rw [unreadable] at hread
    cases hread

/-- What is kept is what the memory has. -/
theorem StandsFor.records? (h : StandsFor directory projects f d m)
    (hfile : f.file? project = some file) : m.records? project = some (f.records project) := by
  obtain ⟨hmem, rfl⟩ := mem_of_file? hfile
  rw [records_of_file? hfile]
  exact (h.kept file hmem).records

theorem StandsFor.list (h : StandsFor directory projects f d m) (hp : project ∈ projects) :
    ∃ a f', (RecordStore.folder f).answer d (.list project kind) = (a, .folder f', d) ∧
      Agreement directory projects d m (.list project kind) a f' d := by
  have outcome := h.load hp
  rw [RecordStore.answer_list_folder]
  generalize f.load d 1 project = result at outcome ⊢
  cases outcome with
  | kept h' hfile =>
    refine ⟨_, _, rfl, h'.agreement rfl fun e => ?_⟩
    rw [RecordStore.answer_list_memory, h'.records? hfile]
  | absent none =>
    refine ⟨_, _, rfl, h.agreement rfl fun e => ?_⟩
    rw [RecordStore.answer_list_memory, none]
  | fault other unreadable => exact ⟨_, _, rfl, agreement_of_fault hp other unreadable⟩

/-! ## Writing -/

theorem mem_updateFile {change : ProjectFile → ProjectFile} {new : ProjectFile}
    (h : new ∈ (f.updateFile project change).files) :
    (∃ file ∈ f.files, file.project = project ∧ new = change file) ∨
      new ∈ f.files ∧ new.project ≠ project := by
  obtain ⟨file, hmem, rfl⟩ := List.mem_map.1 h
  split
  · rename_i same
    exact .inl ⟨file, hmem, same, rfl⟩
  · rename_i other
    exact .inr ⟨hmem, other⟩

/-- A project that is not kept after a kept one has changed was not kept before. -/
theorem absent_of_updateFile {change : ProjectFile → ProjectFile} {p : String}
    (same : ∀ file, (change file).project = file.project) (hfile : f.file? project = some file)
    (h : (f.updateFile project change).file? p = none) : f.file? p = none ∧ p ≠ project := by
  have missing : f.file? p = none := by
    rw [file?_eq_none, updateFile, List.forall_mem_map] at h
    refine file?_eq_none.2 fun old hold => ?_
    have kept := h old hold
    split at kept
    · rwa [same] at kept
    · exact kept
  refine ⟨missing, ?_⟩
  rintro rfl
  rw [hfile] at missing
  cases missing

theorem hasOrder64_of_writeOrderOnto {rs rs' : List EntityRecord}
    (h : writeOrderOnto rs kind name order layer = some rs') (low : -2 ^ 63 ≤ order)
    (high : order < 2 ^ 63) (old : ∀ r ∈ rs, r.HasOrder64) : ∀ r ∈ rs', r.HasOrder64 := by
  unfold writeOrderOnto at h
  split at h
  · cases h
    rw [List.forall_mem_map]
    intro r hr
    split
    · rintro o ⟨⟩
      exact ⟨low, high⟩
    · exact old r hr
  · cases h

/-- Written records are what the memory has then, and are yet to be saved. -/
theorem StandsFor.update {rs : List EntityRecord} (h : StandsFor directory projects f d m)
    (hfile : f.file? project = some file) (orders : ∀ r ∈ rs, r.HasOrder64) (n : Nat) :
    StandsFor directory projects
      (f.updateFile project fun file => { file with records := rs, dirty := true }) d
      { m.insertProject project rs with writeCount := n } := by
  have known := h.records? hfile
  have inserted (p : String) : (m.insertProject project rs).records? p =
      if p = project then some rs else m.records? p := MemoryStore.records?_insertProject known rs
  have willing : MemoryStore.IsWilling { m.insertProject project rs with writeCount := n } := by
    rw [MemoryStore.insertProject_of_records? known]
    exact h.willing
  refine ⟨h.place, h.valid, willing, fun new hmem => ?_, fun p hp none => ?_⟩
  · cases mem_updateFile hmem with
    | inl changed =>
      obtain ⟨file, hold, rfl, rfl⟩ := changed
      have old := h.kept file hold
      exact ⟨old.named, (inserted _).trans (if_pos rfl), orders, old.readable,
        fun clean => by cases clean⟩
    | inr other =>
      have old := h.kept new other.1
      exact ⟨old.named, (inserted _).trans ((if_neg other.2).trans old.records), old.orders,
        old.readable, old.clean⟩
  · obtain ⟨missing, other⟩ := absent_of_updateFile (fun _ => by rfl) hfile none
    exact (inserted p).trans ((if_neg other).trans (h.absent p hp missing))

theorem StandsFor.writeOrder (h : StandsFor directory projects f d m) (hp : project ∈ projects)
    (low : -2 ^ 63 ≤ order) (high : order < 2 ^ 63) :
    ∃ a f', (RecordStore.folder f).answer d (.writeOrder project kind name order layer) =
        (a, .folder f', d) ∧
      Agreement directory projects d m (.writeOrder project kind name order layer) a f' d := by
  have outcome := h.load hp
  rw [RecordStore.answer_writeOrder_folder]
  generalize f.load d 1 project = result at outcome ⊢
  cases outcome with
  | absent none =>
    refine ⟨_, _, rfl, h.agreement rfl fun e => ?_⟩
    rw [RecordStore.answer_writeOrder_memory h.willing, none]
  | fault other unreadable => exact ⟨_, _, rfl, agreement_of_fault hp other unreadable⟩
  | @kept f' file h' hfile =>
    dsimp only
    cases hwrite : writeOrderOnto (f'.records project) kind name order layer with
    | none =>
      refine ⟨_, _, rfl, h'.agreement rfl fun e => ?_⟩
      rw [RecordStore.answer_writeOrder_memory h.willing, h'.records? hfile]
      dsimp only
      rw [hwrite]
    | some rs =>
      obtain ⟨hmem, -⟩ := mem_of_file? hfile
      have orders := hasOrder64_of_writeOrderOnto hwrite low high
        (records_of_file? hfile ▸ (h'.kept file hmem).orders)
      refine ⟨_, _, rfl, (h'.update hfile orders (m.writeCount + 1)).agreement rfl fun e => ?_⟩
      rw [RecordStore.answer_writeOrder_memory h.willing, h'.records? hfile]
      dsimp only
      rw [hwrite]

/-! ## Saving -/

theorem Written.parsed?_other {text other : String} (w : f.Written project text d d')
    (hname : isProjectName other = true) (apart : other ≠ project) :
    parsed? f.directory d' other = parsed? f.directory d other := by
  unfold parsed?
  rw [w.readText_other other hname apart]

/-- Saving a project does not keep others from being read and saved. -/
theorem Written.isSound {text : String} (w : f.Written project text d d')
    (valid : ∀ p ∈ projects, isProjectName p = true) (sound : IsSound f.directory projects d) :
    IsSound f.directory projects d' := by
  intro p hp
  by_cases own : p = project
  · subst own
    exact .inr ⟨⟨text, w.readText⟩, w.canSave⟩
  · rw [w.readText_other p (valid p hp) own]
    cases sound p hp with
    | inl missing => exact .inl missing
    | inr there => exact .inr ⟨there.1, w.canSave_other p (valid p hp) own there.2⟩

theorem StandsFor.written (h : StandsFor directory projects f d m)
    (hfile : f.file? project = some file) (hwrite : f.writeFile d file = (none, d')) :
    f.Written project (RecordFile.render file.records) d d' := by
  obtain ⟨hmem, rfl⟩ := mem_of_file? hfile
  obtain rfl := h.place
  have keeps := h.kept file hmem
  obtain ⟨content, hread⟩ := keeps.readable
  exact written_of_writeFile (h.valid _ keeps.named) hread hwrite

/-- A project whose file was written has nothing to save, and its file has the records that are
kept. -/
theorem StandsFor.markSaved (h : StandsFor directory projects f d m)
    (hfile : f.file? project = some file) (hwrite : f.writeFile d file = (none, d')) :
    StandsFor directory projects (f.updateFile project fun file => { file with dirty := false }) d'
      m := by
  have w := h.written hfile hwrite
  obtain rfl := h.place
  refine ⟨rfl, h.valid, h.willing, ?_, ?_⟩
  · intro new hmem
    cases mem_updateFile hmem with
    | inl changed =>
      obtain ⟨twin, htwin, rfl, rfl⟩ := changed
      have old := h.kept twin htwin
      have known := h.records? hfile
      rw [old.records, records_of_file? hfile] at known
      have back : parsed? f.directory d' twin.project = some twin.records := by
        rw [parsed?, w.readText, Option.some.inj known]
        exact congrArg some (RecordFile.records_render (Option.some.inj known ▸ old.orders))
      exact ⟨old.named, old.records, old.orders, ⟨_, w.readText⟩, fun _ => back⟩
    | inr other =>
      have old := h.kept new other.1
      have hname := h.valid _ old.named
      obtain ⟨content, hread⟩ := old.readable
      refine ⟨old.named, old.records, old.orders, ⟨content, ?_⟩, fun clean => ?_⟩
      · exact (w.readText_other _ hname other.2).trans hread
      · rw [w.parsed?_other hname other.2]
        exact old.clean clean
  · intro p hp none
    obtain ⟨missing, other⟩ := absent_of_updateFile (fun _ => by rfl) hfile none
    rw [w.parsed?_other (h.valid p hp) other]
    exact h.absent p hp missing

theorem StandsFor.exists_writeFile (h : StandsFor directory projects f d m)
    (hfile : f.file? project = some file) (sound : IsSound directory projects d) :
    ∃ d', f.writeFile d file = (none, d') := by
  obtain ⟨hmem, rfl⟩ := mem_of_file? hfile
  obtain rfl := h.place
  have keeps := h.kept file hmem
  obtain ⟨content, hread⟩ := keeps.readable
  cases sound _ keeps.named with
  | inl missing =>
    rw [hread] at missing
    cases missing
  | inr there =>
    obtain ⟨q, bytes, hold, -⟩ := Disk.exists_holdsFile hread
    obtain ⟨d', hwrite, -⟩ :=
      RecordFolder.exists_writeFile (s := f) (f := file) (h.valid _ keeps.named) hold there.2
    exact ⟨d', hwrite⟩

/-- What comes of saving projects: a file cannot be written, or none of them has anything left to
save. -/
structure SaveOutcome (directory : String) (projects : Set String) (f : RecordFolder) (d : Disk)
    (m : MemoryStore) (names : List String) (e : Option FileFault) (f' : RecordFolder) (d' : Disk) :
    Prop where
  sound : IsSound directory projects d → e = none ∧ IsSound directory projects d'
  same : e = none → StandsFor directory projects f' d' m
  clean : e = none → ∀ file ∈ f'.files, file.dirty = true →
    file.project ∉ names ∧ ∃ old ∈ f.files, old.dirty = true ∧ old.project = file.project

variable {names : List String} {e : Option FileFault}

/-- There is nothing to save of a project that is not kept. -/
theorem SaveOutcome.of_absent (hfile : f.file? project = none)
    (outcome : SaveOutcome directory projects f d m names e f' d') :
    SaveOutcome directory projects f d m (project :: names) e f' d' := by
  refine ⟨outcome.sound, outcome.same, fun done file hmem dirty => ?_⟩
  obtain ⟨others, old, hold, was, same⟩ := outcome.clean done file hmem dirty
  have apart : file.project ≠ project := same ▸ file?_eq_none.1 hfile old hold
  exact ⟨List.not_mem_cons_of_ne_of_not_mem apart others, old, hold, was, same⟩

/-- A project that has been saved has nothing left to save, whatever comes of the others. -/
theorem SaveOutcome.of_written (h : StandsFor directory projects f d m)
    (hfile : f.file? project = some file) {d₁ : Disk} (hwrite : f.writeFile d file = (none, d₁))
    (outcome : SaveOutcome directory projects
      (f.updateFile project fun file => { file with dirty := false }) d₁ m names e f' d') :
    SaveOutcome directory projects f d m (project :: names) e f' d' := by
  refine ⟨fun sound => ?_, outcome.same, fun done new hmem dirty => ?_⟩
  · have written := h.written hfile hwrite
    obtain rfl := h.place
    exact outcome.sound (written.isSound h.valid sound)
  · obtain ⟨others, old, hold, was, same⟩ := outcome.clean done new hmem dirty
    cases mem_updateFile hold with
    | inl changed =>
      obtain ⟨_, -, -, rfl⟩ := changed
      cases was
    | inr other =>
      have apart : new.project ≠ project := same ▸ other.2
      exact ⟨List.not_mem_cons_of_ne_of_not_mem apart others, old, other.1, was, same⟩

theorem StandsFor.saveProjects (h : StandsFor directory projects f d m) (names : List String) :
    ∃ e f' d', f.saveProjects d names = (e.map Error.file, f', d') ∧
      SaveOutcome directory projects f d m names e f' d' := by
  induction names generalizing f d with
  | nil =>
    refine ⟨none, f, d, rfl, fun sound => ⟨rfl, sound⟩, fun _ => h, ?_⟩
    exact fun _ file hmem dirty => ⟨List.not_mem_nil, file, hmem, dirty, rfl⟩
  | cons project rest ih =>
    unfold RecordFolder.saveProjects
    cases hfile : f.file? project with
    | none =>
      obtain ⟨e, f', d', hsave, outcome⟩ := ih h
      exact ⟨e, f', d', hsave, outcome.of_absent hfile⟩
    | some file =>
      dsimp only
      cases hwrite : f.writeFile d file with
      | mk failure d₁ =>
        cases failure with
        | none =>
          obtain ⟨e, f', d', hsave, outcome⟩ := ih (h.markSaved hfile hwrite)
          exact ⟨e, f', d', hsave, outcome.of_written h hfile hwrite⟩
        | some fault =>
          refine ⟨some fault, f, d₁, rfl, fun sound => ?_, nofun, nofun⟩
          obtain ⟨d', written⟩ := h.exists_writeFile hfile sound
          rw [hwrite] at written
          cases written

/-- Saving changes no record of the memory. -/
theorem StandsFor.count (h : StandsFor directory projects f d m) (n : Nat) :
    StandsFor directory projects f d { m with saveCount := n } where
  place := h.place
  valid := h.valid
  willing := h.willing
  kept file hmem :=
    have old := h.kept file hmem
    ⟨old.named, old.records, old.orders, old.readable, old.clean⟩
  absent := h.absent

/-- After a save that succeeds, no write is waiting. -/
theorem StandsFor.save (h : StandsFor directory projects f d m) :
    ∃ a f' d', (RecordStore.folder f).answer d .save = (a, .folder f', d') ∧
      Agreement directory projects d m .save a f' d' ∧ (a.isFault = false → f'.IsClean) := by
  obtain ⟨e, f', d', hsave, outcome⟩ := h.saveProjects f.dirtyProjects
  unfold RecordStore.answer RecordStore.save RecordFolder.save
  dsimp only
  rw [hsave]
  cases e with
  | some fault =>
    refine ⟨.failed (.file fault), f', d', rfl, ⟨fun sound => ?_, nofun⟩, nofun⟩
    cases (outcome.sound sound).1
  | none =>
    refine ⟨.done, f', d', rfl, ⟨fun sound => ⟨rfl, (outcome.sound sound).2⟩, fun _ => ?_⟩, ?_⟩
    · exact ⟨_, fun e => RecordStore.answer_save_memory,
        (outcome.same rfl).count (m.saveCount + 1)⟩
    · intro _ file hmem
      by_contra dirty
      obtain ⟨others, old, hold, was, same⟩ :=
        outcome.clean rfl file hmem (Bool.eq_true_of_not_eq_false dirty)
      refine others (Sorted.mem_sort.2 (List.mem_map.2 ⟨old, ?_, same⟩))
      exact List.mem_filter.2 ⟨hold, was⟩

/-! ## Going on with a fresh store -/

/-- What is not waiting to be saved is read again. -/
theorem StandsFor.reopen (h : StandsFor directory projects f d m) (clean : f.IsClean) :
    StandsFor directory projects { directory } d m := by
  refine standsFor_fresh h.valid h.willing fun p hp => ?_
  cases hfile : f.file? p with
  | none => exact h.absent p hp hfile
  | some file =>
    obtain ⟨hmem, rfl⟩ := mem_of_file? hfile
    have old := h.kept file hmem
    rw [old.records, old.clean (clean file hmem)]

end RecordFolder

end LayerGraph
