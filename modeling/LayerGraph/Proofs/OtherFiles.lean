import LayerGraph.Proofs.SavedFile

/-!
# The other files of a folder

Writing a project's file changes two places: the one of the file, and the one under its temporary
name. No file of another project is at either of them, and the ways to the files of a folder are the
same before and after. So the other projects are read as before, and can be saved as before.

Main statements:
1. `Disk.locate_eq_of_locate`: the way to one file of a directory decides the ways to all of them.
2. `RecordFolder.written_of_writeFile`: what a file that was written, and all others, look like.
3. `RecordFolder.readText_of_fault`: when a file cannot be written, no project's file has changed.
-/

namespace LayerGraph

variable {d d' : Disk} {p q r : Place} {path : String}

theorem Text.octets_injective {a b : String} (h : octets a = octets b) : a = b :=
  String.toByteArray_inj.1 (ByteArray.ext (Array.toList_inj.1 h))

/-! ## Disks that differ at a place -/

namespace Disk

variable {directory name other : String}

/-- Two disks on which a path leads to one place have the same ways to the other files of its
directory. -/
theorem locate_eq_of_locate (hname : IsFileName name)
    (hd : d.locate (Path.join directory name) = .ok q)
    (hd' : d'.locate (Path.join directory name) = .ok q) (hother : IsFileName other) :
    d'.locate (Path.join directory other) = d.locate (Path.join directory other) := by
  obtain ⟨s, front, paths⟩ := exists_front directory
  obtain ⟨hstart, hnames⟩ := paths name hname
  have way {d : Disk} (h : d.locate (Path.join directory name) = .ok q) :
      ∃ p, d.walk s front = .ok p ∧ d.hasDirectory p = true ∧ q = p ++ [Text.octets name] := by
    obtain ⟨-, -, -, walked⟩ := locate_eq_ok.1 h
    rw [hstart, hnames, walk_concat] at walked
    obtain ⟨p, hp, here, -, hstep⟩ := walked
    exact ⟨p, hp, here, hstep.trans (Place.step_plain hname.plain)⟩
  obtain ⟨p, hp, here, rfl⟩ := way hd
  obtain ⟨p', hp', here', same⟩ := way hd'
  obtain rfl : p = p' := (List.append_inj' same rfl).1
  obtain ⟨hstart', hnames'⟩ := paths other hother
  -- the directory is at one place, so the last name is looked up there on both disks
  unfold locate locateOctets
  rw [hstart', hnames', walk_append, walk_append, hp, hp']
  simp only [bind, Except.bind]
  rw [walk_of_hasDirectory here, walk_of_hasDirectory here']

/-- What is read depends on where a path leads and on what is there. -/
theorem readText_congr (ways : d'.locate path = d.locate path)
    (same : ∀ q, d.locate path = .ok q → d'.entryAt? q = d.entryAt? q) :
    d'.readText path = d.readText path := by
  have found : d'.find path = d.find path := by
    unfold find findOctets
    have here : d.locateOctets (Text.octets path) = d.locate path := rfl
    have there : d'.locateOctets (Text.octets path) = d'.locate path := rfl
    rw [here, there, ways]
    cases hq : d.locate path with
    | error fault => rfl
    | ok q =>
      simp only [bind, Except.bind]
      rw [same q hq]
  unfold readText readBytes
  rw [found]

/-- What writing a file comes to. -/
theorem exists_set_of_write {content : ByteArray} (h : d.write path content = .ok d') :
    ∃ p, d.locate path = .ok p ∧ d.hasDirectory p = false ∧ d' = d.set p (.file content) := by
  cases hp : d.locate path with
  | error fault =>
    rw [write, hp] at h
    cases h
  | ok p =>
    rw [write, hp] at h
    simp only [bind, Except.bind] at h
    split at h
    · cases h
    · split at h
      · cases h
      · rename_i directory
        exact ⟨p, rfl, Bool.not_eq_true _ ▸ directory, (Except.ok.inj h).symm⟩

end Disk

/-! ## Files of other projects -/

namespace RecordFolder

variable {s : RecordFolder} {project other : String} {f : ProjectFile}

/-- The names that are not those of a project's two files. -/
def IsForeign (project name : String) : Prop :=
  name ≠ fileName project ∧ name ≠ temporaryName project

theorem fileName_ne_temporaryName (other project : String) :
    fileName other ≠ temporaryName project := by
  intro same
  have last := congrArg (·.toList.getLast?) same
  simp [fileName, temporaryName] at last

theorem isForeign_fileName (h : other ≠ project) : IsForeign project (fileName other) :=
  ⟨fun same => h ((String.append_left_inj _).1 same), fileName_ne_temporaryName other project⟩

theorem isForeign_temporaryName (h : other ≠ project) :
    IsForeign project (temporaryName other) := by
  constructor
  · exact (fileName_ne_temporaryName project other).symm
  · intro same
    exact h ((String.append_left_inj _).1 same)

/-- What became of the files of a folder when the file of a project was written. -/
structure Written (s : RecordFolder) (project text : String) (d d' : Disk) : Prop where
  readText : d'.readText (Path.join s.directory (fileName project)) = .ok text
  canSave : s.CanSave d' project
  readText_other : ∀ other, isProjectName other = true → other ≠ project →
    d'.readText (Path.join s.directory (fileName other)) =
      d.readText (Path.join s.directory (fileName other))
  canSave_other : ∀ other, isProjectName other = true → other ≠ project →
    s.CanSave d other → s.CanSave d' other

/-- A file that is written leaves every other name in its directory as it was. -/
theorem unchanged_of_isForeign {new : ByteArray} {name : String}
    (hname : isProjectName project = true) (hp : d.locate (s.temporaryPath project) = .ok p)
    (hq : d.locate (s.filePath project) = .ok q)
    (hq' : Disk.locate (((d.set p (.file new)).erase p).set q (.file new)) (s.filePath project) =
      .ok q) (isName : IsFileName name) (foreign : IsForeign project name) :
    Disk.locate (((d.set p (.file new)).erase p).set q (.file new)) (Path.join s.directory name) =
        d.locate (Path.join s.directory name) ∧
      ∀ r, d.locate (Path.join s.directory name) = .ok r →
        Disk.entryAt? (((d.set p (.file new)).erase p).set q (.file new)) r = d.entryAt? r := by
  refine ⟨Disk.locate_eq_of_locate (isFileName_fileName hname) hq hq' isName, ?_⟩
  intro r hr
  obtain ⟨front, rfl, others⟩ := Disk.exists_directory (isFileName_fileName hname) hq
  obtain rfl := others _ (isFileName_temporaryName hname) p hp
  obtain rfl := others _ isName r hr
  have apart {a b : String} (h : a ≠ b) : front ++ [Text.octets a] ≠ front ++ [Text.octets b] := by
    intro same
    exact h (Text.octets_injective (List.cons.inj (List.append_cancel_left same)).1)
  rw [Disk.entryAt?_set_ne _ (apart foreign.1), Disk.entryAt?_erase_ne (apart foreign.2),
    Disk.entryAt?_set_ne _ (apart foreign.2)]

/-- A project's file that was written holds the text of the records, and no other project has
changed. -/
theorem written_of_writeFile {content : String} (hname : isProjectName f.project = true)
    (hread : d.readText (s.filePath f.project) = .ok content)
    (h : s.writeFile d f = (none, d')) :
    s.Written f.project (RecordFile.render f.records) d d' := by
  obtain ⟨q, bytes, hold, -⟩ := Disk.exists_holdsFile hread
  have can : s.CanSave d f.project := by
    by_contra cannot
    obtain ⟨fault, _, hfault, -⟩ := exists_writeFile_fault hname hold cannot
    rw [h] at hfault
    cases hfault
  obtain ⟨d₁, hwrite, hbytes, can'⟩ := exists_writeFile hname hold can
  obtain rfl : d' = d₁ := (Prod.mk.inj (h.symm.trans hwrite)).2
  obtain ⟨p, q', hp, hq', locked, directory, free⟩ := can
  obtain rfl : q' = q := Except.ok.inj (hq'.symm.trans hold.located)
  obtain ⟨ne, given⟩ := ne_of_locate hname hp hq'
  have written := writeFile_of_free hname hp hold locked directory free rfl
  obtain rfl : d' = _ := (Prod.mk.inj (h.symm.trans written)).2
  have moved := holdsFile_erase hold directory given ne (RecordFile.render f.records).toUTF8
  have unchanged {name : String} (isName : IsFileName name) :=
    unchanged_of_isForeign hname hp hq' (moved.set _).located isName
  refine ⟨Disk.readText_of_readBytes hbytes, can', ?_, ?_⟩
  · intro other hother apart
    obtain ⟨ways, same⟩ := unchanged (isFileName_fileName hother) (isForeign_fileName apart)
    exact Disk.readText_congr ways same
  · rintro other hother apart ⟨p', q', hp', hq', locked', directory', free'⟩
    obtain ⟨ways, same⟩ :=
      unchanged (isFileName_temporaryName hother) (isForeign_temporaryName apart)
    have ways' := (unchanged (isFileName_fileName hother) (isForeign_fileName apart)).1
    refine ⟨p', q', ways.trans hp', ways'.trans hq', locked', ?_, free'⟩
    rw [Disk.hasDirectory, same p' hp']
    exact directory'

/-- A project's file that could not be written is as it was, and so are those of the others: no more
than a file under the temporary name has come. -/
theorem readText_of_fault {content : String} {fault : FileFault}
    (hname : isProjectName f.project = true)
    (hread : d.readText (s.filePath f.project) = .ok content)
    (h : s.writeFile d f = (some fault, d')) (hother : isProjectName other = true) :
    d'.readText (s.filePath other) = d.readText (s.filePath other) := by
  obtain ⟨q, bytes, hold, -⟩ := Disk.exists_holdsFile hread
  rw [writeFile_eq hname hold.located] at h
  cases hwrite : d.write (s.temporaryPath f.project) (RecordFile.render f.records).toUTF8 with
  | error fault =>
    rw [hwrite] at h
    cases h
    rfl
  | ok d₁ =>
    rw [hwrite] at h
    obtain ⟨p, hp, directory, rfl⟩ := Disk.exists_set_of_write hwrite
    generalize Entry.file (RecordFile.render f.records).toUTF8 = new at h
    have left : d' = d.set p new := by
      dsimp only at h
      split at h
      · exact (Prod.mk.inj h).2.symm
      · cases h
    subst left
    have ways := Disk.locate_eq_of_locate (isFileName_temporaryName hname) hp
      (Disk.locate_set directory new hp) (isFileName_fileName hother)
    refine Disk.readText_congr ways fun r hr => Disk.entryAt?_set_ne _ ?_
    -- the file and the temporary file are in one directory, under different names
    obtain ⟨front, rfl, others⟩ := Disk.exists_directory (isFileName_temporaryName hname) hp
    obtain rfl := others _ (isFileName_fileName hother) r hr
    intro same
    exact fileName_ne_temporaryName other f.project
      (Text.octets_injective (List.cons.inj (List.append_cancel_left same)).1)

end RecordFolder

end LayerGraph
