import LayerGraph.Proofs.CreatedDirectories
import LayerGraph.Proofs.RewrittenFile

/-!
# Saves that stop half way

A save writes the files of the changed projects one after another and stops at the first one that
cannot be written. Whether a file can be written is for the disk to say: its directory has to be there
or to be created, and neither its place nor its temporary place may be locked or be a directory.
Writing one file changes none of this for the others. So a save writes the files in front of the first
one that cannot be written. Their projects have nothing left to save then; all others, with their
files, are as they were.

Main statements:
1. `writeFile_eq_none_iff`, `canWrite_iff`: when a file can be written, and the disk after that.
2. `keepsFile_of_fault`, `keepsFile_of_writeFile`, `canWrite_iff_of_writeFile`: what writing a file
   leaves of the others.
3. `IsStore.exists_save`: what comes of a save.
-/

namespace LayerGraph

variable {d d' d₀ : Disk} {p q : Place}

/-! ## Writing and moving -/

namespace Disk

variable {path source target : String}

theorem write_eq_ok {content : ByteArray} : d.write path content = .ok d' ↔
    ∃ p, d.locate path = .ok p ∧ p ∉ d.locked ∧ d.hasDirectory p = false ∧
      d' = d.set p (.file content) := by
  constructor
  · intro h
    obtain ⟨p, hp, plain, rfl⟩ := exists_set_of_write h
    refine ⟨p, hp, fun locked => ?_, plain, rfl⟩
    rw [write, hp] at h
    simp [bind, Except.bind, locked] at h
  · rintro ⟨p, hp, free, plain, rfl⟩
    rw [write, hp]
    simp [bind, Except.bind, free, plain]

theorem rename_eq_ok : d.rename source target = .ok d' ↔
    ∃ p q e, d.locate source = .ok p ∧ d.locate target = .ok q ∧ q ∉ d.locked ∧
      d.entryAt? p = some e ∧ d.hasDirectory q = false ∧ d' = (d.erase p).set q e := by
  constructor
  · intro h
    obtain ⟨p, q, e, hp, hq, entry, plain, rfl⟩ := exists_of_rename h
    refine ⟨p, q, e, hp, hq, fun locked => ?_, entry, plain, rfl⟩
    rw [rename, hp, hq] at h
    simp [bind, Except.bind, locked] at h
  · rintro ⟨p, q, e, hp, hq, free, entry, plain, rfl⟩
    rw [rename, hp, hq]
    simp [bind, Except.bind, free, entry, plain]

/-- The disk after an entry has been put at one place and moved to another one. -/
def moveOver (d : Disk) (p q : Place) (e : Entry) : Disk :=
  ((d.set p e).erase p).set q e

end Disk

theorem Path.parent_join {directory name other : String} (hname : IsFileName name)
    (hother : IsFileName other) :
    Path.parent (Path.join directory name) = Path.parent (Path.join directory other) := by
  rcases Path.exists_base directory with rfl | ⟨base, hbase⟩
  · have join_eq (name : String) : Path.join "" name = name := by simp [Path.join]
    rw [join_eq, join_eq, Path.parent_of_name hname, Path.parent_of_name hother]
  · rw [hbase, hbase, Path.parent_base hname, Path.parent_base hother]

namespace RecordFolder

variable {f s : RecordFolder} {project other : String} {file : ProjectFile}

/-! ## Files that can be written -/

/-- A project's file can be written in a directory that is there: the ways to its place and to its
temporary place are open, neither is locked, and no directory is at either. -/
structure CanReplace (directory : String) (d : Disk) (project : String) (p q : Place) : Prop where
  temporary : d.locate (Path.join directory (temporaryName project)) = .ok p
  file : d.locate (Path.join directory (fileName project)) = .ok q
  temporary_free : p ∉ d.locked
  temporary_plain : d.hasDirectory p = false
  file_free : q ∉ d.locked
  file_plain : d.hasDirectory q = false

/-- A project's file can be written: its directory is there or can be created, and there the file can
be put under its temporary name and moved. -/
def CanWrite (s : RecordFolder) (d : Disk) (project : String) : Prop :=
  ∃ d₀ p q, d.createDirectories (Path.parent (s.filePath project)) = (none, d₀) ∧
    CanReplace s.directory d₀ project p q

theorem writeFile_eq_none : s.writeFile d file = (none, d') ↔ ∃ d₀ d₁,
    d.createDirectories (Path.parent (s.filePath file.project)) = (none, d₀) ∧
      d₀.write (s.temporaryPath file.project) (RecordFile.render file.records).toUTF8 = .ok d₁ ∧
      d₁.rename (s.temporaryPath file.project) (s.filePath file.project) = .ok d' := by
  unfold writeFile
  dsimp only
  constructor
  · intro h
    split at h
    · cases h
    · next d₀ created =>
      split at h
      · cases h
      · next d₁ written =>
        split at h
        · cases h
        · next d₂ moved =>
          cases h
          exact ⟨d₀, d₁, created, written, moved⟩
  · rintro ⟨d₀, d₁, created, written, moved⟩
    unfold filePath at created
    rw [created]
    dsimp only
    unfold temporaryPath at written
    rw [written]
    dsimp only
    unfold temporaryPath filePath at moved
    rw [moved]

/-- A file that is put at its temporary place leaves the ways as they are. -/
theorem locate_set_temporary (hname : isProjectName project = true)
    (hp : d.locate (s.temporaryPath project) = .ok p) (plain : d.hasDirectory p = false)
    (e : Entry) {name : String} (isName : IsFileName name) :
    (d.set p e).locate (Path.join s.directory name) = d.locate (Path.join s.directory name) :=
  Disk.locate_eq_of_locate (isFileName_temporaryName hname) hp (Disk.locate_set plain e hp) isName

/-- What writing a file that can be written comes to. -/
theorem writeFile_eq_none_iff (hname : isProjectName file.project = true) :
    s.writeFile d file = (none, d') ↔ ∃ d₀ p q,
      d.createDirectories (Path.parent (s.filePath file.project)) = (none, d₀) ∧
        CanReplace s.directory d₀ file.project p q ∧
        d' = d₀.moveOver p q (.file (RecordFile.render file.records).toUTF8) := by
  rw [writeFile_eq_none]
  generalize (RecordFile.render file.records).toUTF8 = new
  constructor
  · rintro ⟨d₀, d₁, created, written, moved⟩
    obtain ⟨p, hp, free, plain, rfl⟩ := Disk.write_eq_ok.1 written
    obtain ⟨p', q, e, hp', hq, free', entry, plain', rfl⟩ := Disk.rename_eq_ok.1 moved
    have ways {name : String} (isName : IsFileName name) :=
      locate_set_temporary hname hp plain (.file new) isName
    have hq₀ : d₀.locate (s.filePath file.project) = .ok q :=
      (ways (isFileName_fileName hname)).symm.trans hq
    obtain rfl : p' = p := Except.ok.inj
      (hp'.symm.trans ((ways (isFileName_temporaryName hname)).trans hp))
    obtain ⟨ne, given⟩ := ne_of_locate hname hp hq₀
    obtain rfl : Entry.file new = e :=
      Option.some.inj ((Disk.entryAt?_set_self given _).symm.trans entry)
    have plain₀ : d₀.hasDirectory q = false := by
      rwa [Disk.hasDirectory, Disk.entryAt?_set_ne _ ne] at plain'
    exact ⟨d₀, p', q, created, ⟨hp, hq₀, free, plain, free', plain₀⟩, rfl⟩
  · rintro ⟨d₀, p, q, created, can, rfl⟩
    have ways {name : String} (isName : IsFileName name) :=
      locate_set_temporary hname can.temporary can.temporary_plain (.file new) isName
    obtain ⟨ne, given⟩ := ne_of_locate hname can.temporary can.file
    refine ⟨d₀, _, created, Disk.write_eq_ok.2
      ⟨p, can.temporary, can.temporary_free, can.temporary_plain, rfl⟩, Disk.rename_eq_ok.2
      ⟨p, q, .file new, ?_, ?_, can.file_free, Disk.entryAt?_set_self given _, ?_, rfl⟩⟩
    · exact (ways (isFileName_temporaryName hname)).trans can.temporary
    · exact (ways (isFileName_fileName hname)).trans can.file
    · rw [Disk.hasDirectory, Disk.entryAt?_set_ne _ ne]
      exact can.file_plain

/-- Whether a file can be written does not depend on what is written. -/
theorem canWrite_iff (hname : isProjectName file.project = true) :
    s.CanWrite d file.project ↔ ∃ d', s.writeFile d file = (none, d') := by
  constructor
  · rintro ⟨d₀, p, q, created, can⟩
    exact ⟨_, (writeFile_eq_none_iff hname).2 ⟨d₀, p, q, created, can, rfl⟩⟩
  · rintro ⟨d', h⟩
    obtain ⟨d₀, p, q, created, can, -⟩ := (writeFile_eq_none_iff hname).1 h
    exact ⟨d₀, p, q, created, can⟩

/-! ## What writing a file leaves of the others -/

theorem place_ne {name name' : String} (hname : IsFileName name) (hname' : IsFileName name')
    (ne : name ≠ name') (located : d.locate (Path.join s.directory name') = .ok p) :
    Path.place (Text.octets (Path.join s.directory name)) ≠ p := by
  rw [← Disk.place_of_locate located]
  exact fun same => ne (Disk.name_eq_of_place_eq hname hname' same)

/-- A file that could not be written leaves what is under other names than its temporary one: there
are at most new directories and a temporary file. -/
theorem keepsFile_of_fault {fault : FileFault} {name : String}
    (hname : isProjectName file.project = true) (h : s.writeFile d file = (some fault, d'))
    (isName : IsFileName name) (ne : name ≠ temporaryName file.project) :
    Disk.KeepsFile d d' (Path.join s.directory name) := by
  have gained := Disk.Gains.createDirectories d (Path.parent (s.filePath file.project))
  unfold writeFile at h
  dsimp only at h
  unfold filePath at gained
  split at h
  · next created =>
    cases h
    rw [created] at gained
    exact gained.keepsFile _
  · next d₀ created =>
    rw [created] at gained
    split at h
    · cases h
      exact gained.keepsFile _
    · next d₁ written =>
      split at h
      · next moved =>
        cases h
        obtain ⟨p, hp, -, plain, rfl⟩ := Disk.write_eq_ok.1 written
        refine (gained.keepsFile _).trans (Disk.keepsFile_of_entryAt?_eq ?_ ?_)
        · exact fun q hq => Disk.locate_set plain _ hq
        · exact Disk.entryAt?_set_ne _ (place_ne isName (isFileName_temporaryName hname) ne hp)
      · cases h

theorem CanReplace.locate_moveOver (can : CanReplace s.directory d project p q)
    (hname : isProjectName project = true) (new : ByteArray) :
    (d.moveOver p q (.file new)).locate (s.filePath project) = .ok q := by
  obtain ⟨ne, given⟩ := ne_of_locate hname can.temporary can.file
  have plain : Disk.hasDirectory ((d.set p (.file new)).erase p) q = false := by
    rw [Disk.hasDirectory, Disk.entryAt?_erase_ne ne, Disk.entryAt?_set_ne _ ne]
    exact can.file_plain
  exact Disk.locate_set plain _ (Disk.locate_erase (Disk.hasDirectory_set_file given new)
    (Disk.locate_set can.temporary_plain _ can.file))

/-- The ways to all other names of the directory, and what is there, are the same after a file has
been written. -/
theorem CanReplace.unchanged {name : String} (can : CanReplace s.directory d project p q)
    (hname : isProjectName project = true) (new : ByteArray) (isName : IsFileName name)
    (foreign : IsForeign project name) :
    (d.moveOver p q (.file new)).locate (Path.join s.directory name) =
        d.locate (Path.join s.directory name) ∧
      ∀ r, d.locate (Path.join s.directory name) = .ok r →
        (d.moveOver p q (.file new)).entryAt? r = d.entryAt? r :=
  unchanged_of_isForeign hname can.temporary can.file (can.locate_moveOver hname new) isName foreign

/-- A project's file that has been written leaves what is under other names than its two. -/
theorem keepsFile_of_writeFile {name : String} (hname : isProjectName file.project = true)
    (h : s.writeFile d file = (none, d')) (isName : IsFileName name)
    (foreign : IsForeign file.project name) :
    Disk.KeepsFile d d' (Path.join s.directory name) := by
  obtain ⟨d₀, p, q, created, can, rfl⟩ := (writeFile_eq_none_iff hname).1 h
  have gained := Disk.Gains.createDirectories d (Path.parent (s.filePath file.project))
  rw [created] at gained
  have ways := (can.unchanged hname (RecordFile.render file.records).toUTF8 isName foreign).1
  refine (gained.keepsFile _).trans (Disk.keepsFile_of_entryAt?_eq ?_ ?_)
  · exact fun r hr => ways.trans hr
  · have file_ne := place_ne isName (isFileName_fileName hname) foreign.1 can.file
    have temporary_ne := place_ne isName (isFileName_temporaryName hname) foreign.2 can.temporary
    unfold Disk.moveOver
    rw [Disk.entryAt?_set_ne _ file_ne, Disk.entryAt?_erase_ne temporary_ne,
      Disk.entryAt?_set_ne _ temporary_ne]

theorem CanReplace.moveOver {p' q' : Place} (can : CanReplace s.directory d project p q)
    (hname : isProjectName project = true) (hother : isProjectName other = true)
    (apart : other ≠ project) (new : ByteArray) :
    CanReplace s.directory (d.moveOver p q (.file new)) other p' q' ↔
      CanReplace s.directory d other p' q' := by
  obtain ⟨file, file_same⟩ :=
    can.unchanged hname new (isFileName_fileName hother) (isForeign_fileName apart)
  obtain ⟨temporary, temporary_same⟩ :=
    can.unchanged hname new (isFileName_temporaryName hother) (isForeign_temporaryName apart)
  constructor
  · rintro ⟨hp, hq, free, plain, free', plain'⟩
    have hp₀ := temporary.symm.trans hp
    have hq₀ := file.symm.trans hq
    rw [Disk.hasDirectory, temporary_same p' hp₀] at plain
    rw [Disk.hasDirectory, file_same q' hq₀] at plain'
    exact ⟨hp₀, hq₀, free, plain, free', plain'⟩
  · rintro ⟨hp, hq, free, plain, free', plain'⟩
    refine ⟨temporary.trans hp, file.trans hq, free, ?_, free', ?_⟩
    · rw [Disk.hasDirectory, temporary_same p' hp]
      exact plain
    · rw [Disk.hasDirectory, file_same q' hq]
      exact plain'

/-- A project's file that has been written keeps none of the others from being written, and helps
none of them. -/
theorem canWrite_iff_of_writeFile (hname : isProjectName file.project = true)
    (h : s.writeFile d file = (none, d')) (hother : isProjectName other = true)
    (apart : other ≠ file.project) : s.CanWrite d' other ↔ s.CanWrite d other := by
  obtain ⟨d₀, p, q, created, can, rfl⟩ := (writeFile_eq_none_iff hname).1 h
  generalize (RecordFile.render file.records).toUTF8 = new
  have parent : Path.parent (s.filePath other) = Path.parent (s.filePath file.project) :=
    Path.parent_join (isFileName_fileName hother) (isFileName_fileName hname)
  -- the directory is there by now, so nothing is created for the other file
  have there : (d₀.moveOver p q (.file new)).createDirectories
      (Path.parent (s.filePath file.project)) = (none, d₀.moveOver p q (.file new)) :=
    Disk.createDirectories_parent (isFileName_fileName hname) (can.locate_moveOver hname new)
  unfold CanWrite
  rw [parent, created, there]
  constructor
  · rintro ⟨d₁, p', q', same, can'⟩
    cases same
    exact ⟨d₀, p', q', rfl, (can.moveOver hname hother apart new).1 can'⟩
  · rintro ⟨d₁, p', q', same, can'⟩
    cases same
    exact ⟨_, p', q', rfl, (can.moveOver hname hother apart new).2 can'⟩

/-! ## Saving -/

/-- The projects that are kept. -/
def projects (f : RecordFolder) : List String :=
  f.files.map ProjectFile.project

/-- What is kept is of projects with valid names, each of which is kept once. -/
structure IsStore (f : RecordFolder) : Prop where
  named : ∀ p ∈ f.projects, isProjectName p = true
  nodup : f.projects.Nodup

theorem mem_projects : project ∈ f.projects ↔ ∃ file, f.file? project = some file := by
  rw [← Option.isSome_iff_exists, file?, List.find?_isSome, projects, List.mem_map]
  simp

theorem projects_updateFile {change : ProjectFile → ProjectFile}
    (same : ∀ file, (change file).project = file.project) :
    (f.updateFile project change).projects = f.projects := by
  unfold projects updateFile
  rw [List.map_map]
  refine List.map_congr_left fun file _ => ?_
  rw [Function.comp_apply]
  split
  · exact same file
  · rfl

theorem IsStore.file?_of_mem (h : f.IsStore) (hmem : file ∈ f.files) :
    f.file? file.project = some file := by
  obtain ⟨found, hfound⟩ := mem_projects.1 (List.mem_map_of_mem hmem)
  obtain ⟨hmem', own⟩ := mem_of_file? hfound
  rw [hfound, List.inj_on_of_nodup_map h.nodup hmem' hmem own]

theorem IsStore.mem_dirtyProjects (h : f.IsStore) :
    project ∈ f.dirtyProjects ↔ f.IsDirty project := by
  refine ⟨fun listed => ?_, IsDirty.mem_dirtyProjects⟩
  obtain ⟨file, hmem, rfl⟩ := List.mem_map.1 (Sorted.mem_sort.1 listed)
  obtain ⟨hmem, dirty⟩ := List.mem_filter.1 hmem
  exact ⟨file, h.file?_of_mem hmem, dirty⟩

theorem IsStore.ascending_dirtyProjects (h : f.IsStore) : Sorted.Ascending f.dirtyProjects :=
  Sorted.ascending_sort (h.nodup.sublist (List.filter_sublist.map _))

/-- A save has written the files of some projects, which have nothing left to save then, and no other
file. It has stopped at the first project whose file cannot be written, if there is one; `left` are
that one and those behind it. -/
structure PartlySaved (f : RecordFolder) (d : Disk) (done left : List String) (e : Option Error)
    (f' : RecordFolder) (d' : Disk) : Prop where
  directory : f'.directory = f.directory
  projects : f'.projects = f.projects
  writable : ∀ p ∈ done, f.CanWrite d p
  stopped : left = [] ∧ e = none ∨
    ∃ p rest fault, left = p :: rest ∧ ¬ f.CanWrite d p ∧ e = some (.file fault)
  written : ∀ p ∈ done, ∃ file, f.file? p = some file ∧
    f'.file? p = some { file with dirty := false } ∧
    d'.readText (f.filePath p) = .ok (RecordFile.render file.records)
  unchanged : ∀ p, p ∉ done → f'.file? p = f.file? p
  files : ∀ p, isProjectName p = true → p ∉ done → d.KeepsFile d' (f.filePath p)

theorem file?_markSaved : (f.markSaved project).file? other =
    if other = project then (f.file? other).map ({ · with dirty := false }) else f.file? other :=
  file?_updateFile fun _ => rfl

/-- One project is saved, and then some of the others. -/
theorem PartlySaved.cons {d₁ : Disk} {done left : List String} {e : Option Error}
    {f' : RecordFolder} (hfile : f.file? project = some file)
    (hwrite : f.writeFile d file = (none, d₁))
    (valid : ∀ p ∈ project :: (done ++ left), isProjectName p = true)
    (new : project ∉ done ++ left)
    (h : PartlySaved (f.markSaved project) d₁ done left e f' d') :
    PartlySaved f d (project :: done) left e f' d' := by
  obtain ⟨-, rfl⟩ := mem_of_file? hfile
  obtain ⟨hname, valid⟩ := List.forall_mem_cons.1 valid
  obtain ⟨not_done, not_left⟩ := not_or.1 (mt List.mem_append.2 new)
  have others {p : String} (hp : isProjectName p = true) (apart : p ≠ file.project) :
      (f.markSaved file.project).CanWrite d₁ p ↔ f.CanWrite d p :=
    canWrite_iff_of_writeFile hname hwrite hp apart
  have kept {p : String} (apart : p ≠ file.project) :
      (f.markSaved file.project).file? p = f.file? p :=
    file?_markSaved.trans (if_neg apart)
  have apart_of_done {p : String} (hp : p ∈ done) : p ≠ file.project :=
    fun same => not_done (same ▸ hp)
  constructor
  case directory => exact h.directory
  case projects => exact h.projects.trans (projects_updateFile fun _ => rfl)
  case writable =>
    refine List.forall_mem_cons.2 ⟨(canWrite_iff hname).2 ⟨d₁, hwrite⟩, fun p hp => ?_⟩
    exact (others (valid p (List.mem_append_left _ hp)) (apart_of_done hp)).1 (h.writable p hp)
  case stopped =>
    refine h.stopped.imp_right ?_
    rintro ⟨p, rest, fault, rfl, cannot, rfl⟩
    have hp : p ∈ p :: rest := List.mem_cons_self
    have apart : p ≠ file.project := fun same => not_left (same ▸ hp)
    refine ⟨p, rest, fault, rfl, fun can => cannot ?_, rfl⟩
    exact (others (valid p (List.mem_append_right _ hp)) apart).2 can
  case written =>
    refine List.forall_mem_cons.2 ⟨⟨file, hfile, ?_, ?_⟩, fun p hp => ?_⟩
    · rw [h.unchanged _ not_done, file?_markSaved, if_pos rfl, hfile]
      rfl
    · exact (h.files _ hname not_done).readText _ (readText_of_writeFile hwrite)
    · rw [← kept (apart_of_done hp)]
      exact h.written p hp
  case unchanged =>
    intro p hp
    obtain ⟨apart, hp⟩ := List.ne_and_not_mem_of_not_mem_cons hp
    exact (h.unchanged p hp).trans (kept apart)
  case files =>
    intro p valid_p hp
    obtain ⟨apart, hp⟩ := List.ne_and_not_mem_of_not_mem_cons hp
    exact (keepsFile_of_writeFile hname hwrite (isFileName_fileName valid_p)
      (isForeign_fileName apart)).trans (h.files p valid_p hp)

/-- What comes of saving projects that are kept. -/
theorem exists_partlySaved {names : List String}
    (kept : ∀ p ∈ names, isProjectName p = true ∧ ∃ file, f.file? p = some file)
    (nodup : names.Nodup) : ∃ done left e f' d', names = done ++ left ∧
      f.saveProjects d names = (e, f', d') ∧ PartlySaved f d done left e f' d' := by
  induction names generalizing f d with
  | nil =>
    exact ⟨[], [], none, f, d, rfl, rfl, rfl, rfl, nofun, .inl ⟨rfl, rfl⟩, nofun, fun _ _ => rfl,
      fun _ _ _ => .refl _ _⟩
  | cons project rest ih =>
    obtain ⟨new, nodup⟩ := List.nodup_cons.1 nodup
    have valid : ∀ p ∈ project :: rest, isProjectName p = true := fun p hp => (kept p hp).1
    obtain ⟨⟨hname, file, hfile⟩, kept⟩ := List.forall_mem_cons.1 kept
    obtain ⟨-, own⟩ := mem_of_file? hfile
    unfold saveProjects
    rw [hfile]
    dsimp only
    cases hwrite : f.writeFile d file with
    | mk failure d₁ =>
      cases failure with
      | some fault =>
        rw [← own] at hname
        refine ⟨[], project :: rest, some (.file fault), f, d₁, rfl, rfl, rfl, rfl, nofun,
          .inr ⟨project, rest, fault, rfl, ?_, rfl⟩, nofun, fun _ _ => rfl, fun p hp _ => ?_⟩
        · rw [← own, canWrite_iff hname, hwrite]
          simp
        · exact keepsFile_of_fault hname hwrite (isFileName_fileName hp)
            (fileName_ne_temporaryName p file.project)
      | none =>
        have kept' : ∀ p ∈ rest, isProjectName p = true ∧
            ∃ file, (f.markSaved project).file? p = some file := by
          intro p hp
          have apart : p ≠ project := fun same => new (same ▸ hp)
          rw [file?_markSaved, if_neg apart]
          exact kept p hp
        obtain ⟨done, left, e, f', d', rfl, hsave, partly⟩ := ih (d := d₁) kept' nodup
        exact ⟨project :: done, left, e, f', d', rfl, hsave,
          partly.cons hfile hwrite valid new⟩

/-- What comes of a save: it goes through the changed projects in the order of their names and stops
at the first one whose file cannot be written. -/
theorem IsStore.exists_save (h : f.IsStore) (d : Disk) : ∃ done left e f' d',
    f.save d = (e, f', d') ∧ Sorted.Ascending (done ++ left) ∧
      (∀ p, p ∈ done ++ left ↔ f.IsDirty p) ∧ PartlySaved f d done left e f' d' := by
  have ascending := h.ascending_dirtyProjects
  have kept : ∀ p ∈ f.dirtyProjects, isProjectName p = true ∧ ∃ file, f.file? p = some file := by
    intro p hp
    obtain ⟨file, hfile, -⟩ := h.mem_dirtyProjects.1 hp
    exact ⟨h.named p (mem_projects.2 ⟨file, hfile⟩), file, hfile⟩
  obtain ⟨done, left, e, f', d', listed, hsave, partly⟩ :=
    exists_partlySaved (d := d) kept ascending.nodup
  have dirty (p : String) : p ∈ f.dirtyProjects ↔ f.IsDirty p := h.mem_dirtyProjects
  rw [listed] at ascending dirty
  exact ⟨done, left, e, f', d', hsave, ascending, dirty, partly⟩

end RecordFolder

end LayerGraph
