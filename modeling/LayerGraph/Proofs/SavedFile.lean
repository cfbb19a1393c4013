import LayerGraph.Proofs.FolderPath

/-!
# Writing a project's file

A project's file is written under its temporary name and then moved. When that succeeds, the file
holds the text of the records. When it fails, the file is as it was, and saving fails once more:
whether it fails does not depend on what is written.

Main statements:
1. `RecordFolder.exists_writeFile`: what comes of writing a file that can be saved.
2. `RecordFolder.exists_writeFile_fault`: what comes of writing one that cannot.
-/

namespace LayerGraph

variable {d : Disk} {p q r : Place} {path : String} {e : Entry}

/-! ## Files on a disk -/

namespace Disk

/-- A change at a place that is no directory keeps the ways to all places open. -/
theorem locate_of_entryAt?_eq {d' : Disk} (hp : d.hasDirectory p = false)
    (same : ∀ r, r ≠ p → d'.entryAt? r = d.entryAt? r) (h : d.locate path = .ok r) :
    d'.locate path = .ok r := by
  obtain ⟨noZero, nonempty, short, walked⟩ := locate_eq_ok.1 h
  exact locate_eq_ok.2 ⟨noZero, nonempty, short, walk_of_entryAt?_eq hp same walked⟩

theorem entryAt?_set_ne (e : Entry) (h : r ≠ p) : (d.set p e).entryAt? r = d.entryAt? r := by
  rw [entryAt?_set, if_neg h]
  unfold entryAt?
  split <;> rfl

theorem entryAt?_erase_ne (h : r ≠ p) : (d.erase p).entryAt? r = d.entryAt? r := by
  rw [entryAt?_erase, if_neg h]
  unfold entryAt?
  split <;> rfl

theorem locate_set (hp : d.hasDirectory p = false) (e : Entry) (h : d.locate path = .ok r) :
    (d.set p e).locate path = .ok r :=
  locate_of_entryAt?_eq hp (fun _ hr => entryAt?_set_ne e hr) h

theorem locate_erase (hp : d.hasDirectory p = false) (h : d.locate path = .ok r) :
    (d.erase p).locate path = .ok r :=
  locate_of_entryAt?_eq hp (fun _ hr => entryAt?_erase_ne hr) h

/-- The path leads to a place at which there is a file with these bytes. -/
structure HoldsFile (d : Disk) (path : String) (q : Place) (bytes : ByteArray) : Prop where
  located : d.locate path = .ok q
  entry : d.entryAt? q = some (.file bytes)

variable {bytes : ByteArray}

theorem HoldsFile.readBytes (h : HoldsFile d path q bytes) : d.readBytes path = .ok bytes := by
  have found : d.locateOctets (Text.octets path) = .ok q := h.located
  unfold Disk.readBytes find findOctets
  rw [found]
  simp [bind, Except.bind, h.entry]

theorem HoldsFile.hasDirectory (h : HoldsFile d path q bytes) : d.hasDirectory q = false := by
  simp [Disk.hasDirectory, h.entry]

theorem HoldsFile.not_given (h : HoldsFile d path q bytes) : q.isGiven = false := by
  cases given : q.isGiven with
  | false => rfl
  | true =>
    have entry := h.entry
    rw [entryAt?, if_pos given] at entry
    cases entry

theorem entryAt?_set_self (given : p.isGiven = false) (e : Entry) :
    (d.set p e).entryAt? p = some e := by
  rw [entryAt?_set, if_neg (by simp [given]), if_pos rfl]

theorem hasDirectory_set_file (given : p.isGiven = false) (bytes : ByteArray) :
    (d.set p (.file bytes)).hasDirectory p = false := by
  simp [hasDirectory, entryAt?_set_self given]

theorem hasDirectory_erase (given : p.isGiven = false) : (d.erase p).hasDirectory p = false := by
  simp [hasDirectory, entryAt?_erase, given]

theorem HoldsFile.set_ne (h : HoldsFile d path q bytes) (hp : d.hasDirectory p = false)
    (ne : q ≠ p) (e : Entry) : HoldsFile (d.set p e) path q bytes :=
  ⟨locate_set hp e h.located, (entryAt?_set_ne e ne).trans h.entry⟩

theorem HoldsFile.erase_ne (h : HoldsFile d path q bytes) (hp : d.hasDirectory p = false)
    (ne : q ≠ p) : HoldsFile (d.erase p) path q bytes :=
  ⟨locate_erase hp h.located, (entryAt?_erase_ne ne).trans h.entry⟩

theorem HoldsFile.set (h : HoldsFile d path q bytes) (bytes' : ByteArray) :
    HoldsFile (d.set q (.file bytes')) path q bytes' :=
  ⟨locate_set h.hasDirectory _ h.located, entryAt?_set_self h.not_given _⟩

theorem exists_holdsFile {content : String} (h : d.readText path = .ok content) :
    ∃ q bytes, HoldsFile d path q bytes ∧ String.fromUTF8? bytes = some content := by
  unfold readText Disk.readBytes find findOctets at h
  have located : d.locateOctets (Text.octets path) = d.locate path := rfl
  rw [located] at h
  cases hq : d.locate path with
  | error fault =>
    rw [hq] at h
    cases h
  | ok q =>
    rw [hq] at h
    cases hentry : d.entryAt? q with
    | none => simp [bind, Except.bind, hentry] at h
    | some entry =>
      cases entry with
      | file bytes =>
        cases hbytes : String.fromUTF8? bytes with
        | none => simp [bind, Except.bind, hentry, hbytes] at h
        | some text =>
          simp only [bind, Except.bind, hentry, hbytes, Except.ok.injEq] at h
          exact ⟨q, bytes, ⟨hq, hentry⟩, hbytes.trans (congrArg some h)⟩
      | directory | database _ _ | bareDatabase => simp [bind, Except.bind, hentry] at h

theorem readText_of_readBytes {content : String} (h : d.readBytes path = .ok content.toUTF8) :
    d.readText path = .ok content := by
  unfold readText
  rw [h]
  simp [bind, Except.bind, String.fromUTF8?, String.isValidUTF8, String.fromUTF8]

end Disk

namespace RecordFolder

variable {s : RecordFolder} {project : String} {f : ProjectFile} {bytes : ByteArray}

theorem isFileName_append {name : String} (h : isProjectName name = true) {ending : String}
    (chars : ∀ c ∈ ending.toList, isProjectName.isNameChar c = true)
    (last : ∃ cs c, ending.toList = cs ++ [c] ∧ c ≠ '.') : IsFileName (name ++ ending) := by
  have named : ∀ c ∈ name.toList, isProjectName.isNameChar c = true := by
    unfold isProjectName at h
    split at h
    · cases h
    · rename_i hname
      rw [Bool.and_eq_true, List.all_eq_true] at h
      rw [hname]
      exact h.2
  constructor
  · intro c hc
    rw [String.toList_append, List.mem_append] at hc
    exact hc.elim (named c) (chars c)
  · obtain ⟨cs, c, hcs, hc⟩ := last
    exact ⟨name.toList ++ cs, c, by rw [String.toList_append, hcs, List.append_assoc], hc⟩

theorem isFileName_fileName (h : isProjectName project = true) : IsFileName (fileName project) :=
  isFileName_append h (List.all_eq_true.1 rfl) ⟨".json".toList, 'l', rfl, by decide⟩

theorem isFileName_temporaryName (h : isProjectName project = true) :
    IsFileName (temporaryName project) :=
  isFileName_append h (List.all_eq_true.1 rfl) ⟨".jsonl.tm".toList, 'p', rfl, by decide⟩

theorem octets_fileName_ne (project : String) :
    Text.octets (fileName project) ≠ Text.octets (temporaryName project) := by
  have file : (Text.octets ".jsonl").length = 6 := by decide
  have temporary : (Text.octets ".jsonl.tmp").length = 10 := by decide
  intro same
  have lengths := congrArg List.length same
  rw [fileName, temporaryName, Text.octets_append, Text.octets_append, List.length_append,
    List.length_append] at lengths
  omega

/-- The path of a project's file. -/
def filePath (s : RecordFolder) (project : String) : String :=
  Path.join s.directory (fileName project)

/-- The path under which it is written first. -/
def temporaryPath (s : RecordFolder) (project : String) : String :=
  Path.join s.directory (temporaryName project)

/-- A project's file can be written: there are ways to it and to its temporary place, no directory is
there, and neither place is locked. -/
def CanSave (s : RecordFolder) (d : Disk) (project : String) : Prop :=
  ∃ p q, d.locate (s.temporaryPath project) = .ok p ∧ d.locate (s.filePath project) = .ok q ∧
    p ∉ d.locked ∧ d.hasDirectory p = false ∧ q ∉ d.locked

/-- The two places of a project's file are different. -/
theorem ne_of_locate (hname : isProjectName project = true)
    (hp : d.locate (s.temporaryPath project) = .ok p)
    (hq : d.locate (s.filePath project) = .ok q) : q ≠ p ∧ p.isGiven = false := by
  obtain ⟨front, rfl, others⟩ := Disk.exists_directory (isFileName_fileName hname) hq
  obtain rfl := others _ (isFileName_temporaryName hname) p hp
  refine ⟨fun same => octets_fileName_ne project ?_,
    Place.not_given_plain (isFileName_temporaryName hname).plain⟩
  exact (List.cons.inj (List.append_inj' same rfl).2).1

theorem writeFile_eq (hname : isProjectName f.project = true)
    (hq : d.locate (s.filePath f.project) = .ok q) :
    s.writeFile d f =
      match d.write (s.temporaryPath f.project) (RecordFile.render f.records).toUTF8 with
      | .error fault => (some fault, d)
      | .ok d =>
        match d.rename (s.temporaryPath f.project) (s.filePath f.project) with
        | .error fault => (some fault, d)
        | .ok d => (none, d) := by
  unfold writeFile
  dsimp only
  rw [Disk.createDirectories_parent (isFileName_fileName hname) hq]
  rfl

/-- The disk on which the text of the records has been written under the temporary name. -/
theorem write_temporary (hp : d.locate (s.temporaryPath f.project) = .ok p) (locked : p ∉ d.locked)
    (directory : d.hasDirectory p = false) (bytes : ByteArray) :
    d.write (s.temporaryPath f.project) bytes = .ok (d.set p (.file bytes)) := by
  rw [Disk.write, hp]
  simp [bind, Except.bind, locked, directory]

theorem rename_of_free {bytes' : ByteArray} (hp : d.locate (s.temporaryPath project) = .ok p)
    (entry : d.entryAt? p = some (.file bytes'))
    (hold : d.HoldsFile (s.filePath project) q bytes) (free : q ∉ d.locked) :
    d.rename (s.temporaryPath project) (s.filePath project) =
      .ok ((d.erase p).set q (.file bytes')) := by
  rw [Disk.rename, hp, hold.located]
  simp [bind, Except.bind, entry, hold.hasDirectory, free]

theorem rename_of_locked (hp : d.locate (s.temporaryPath project) = .ok p)
    (hq : d.locate (s.filePath project) = .ok q) (locked : q ∈ d.locked) :
    d.rename (s.temporaryPath project) (s.filePath project) = .error .permissionDenied := by
  rw [Disk.rename, hp, hq]
  simp [bind, Except.bind, locked]

/-- Neither the temporary file nor moving it touches the way to the file. -/
theorem holdsFile_erase (hold : d.HoldsFile (s.filePath project) q bytes)
    (directory : d.hasDirectory p = false) (given : p.isGiven = false) (ne : q ≠ p)
    (new : ByteArray) :
    Disk.HoldsFile ((d.set p (.file new)).erase p) (s.filePath project) q bytes :=
  (hold.set_ne directory ne _).erase_ne (Disk.hasDirectory_set_file given new) ne

/-- The disk after a file that can be saved has been written under its temporary name and moved. -/
theorem writeFile_of_free (hname : isProjectName f.project = true)
    (hp : d.locate (s.temporaryPath f.project) = .ok p)
    (hold : d.HoldsFile (s.filePath f.project) q bytes) (locked : p ∉ d.locked)
    (directory : d.hasDirectory p = false) (free : q ∉ d.locked) {new : ByteArray}
    (hnew : (RecordFile.render f.records).toUTF8 = new) :
    s.writeFile d f = (none, ((d.set p (.file new)).erase p).set q (.file new)) := by
  obtain ⟨ne, given⟩ := ne_of_locate hname hp hold.located
  have moved := rename_of_free (Disk.locate_set directory (.file new) hp)
    (Disk.entryAt?_set_self given _) (hold.set_ne directory ne _) free
  rw [writeFile_eq hname hold.located, hnew, write_temporary hp locked directory new]
  dsimp only
  rw [moved]

/-- A file that can be saved holds the text of the records afterwards, and it can be saved again. -/
theorem exists_writeFile (hname : isProjectName f.project = true)
    (hold : d.HoldsFile (s.filePath f.project) q bytes) (can : s.CanSave d f.project) :
    ∃ d', s.writeFile d f = (none, d') ∧
      d'.readBytes (s.filePath f.project) = .ok (RecordFile.render f.records).toUTF8 ∧
      s.CanSave d' f.project := by
  obtain ⟨p, q', hp, hq', locked, directory, locked'⟩ := can
  obtain rfl : q' = q := Except.ok.inj (hq'.symm.trans hold.located)
  obtain ⟨ne, given⟩ := ne_of_locate hname hp hq'
  generalize hnew : (RecordFile.render f.records).toUTF8 = new
  have plain := Disk.hasDirectory_set_file (d := d) given new
  have moved := holdsFile_erase hold directory given ne new
  refine ⟨_, writeFile_of_free hname hp hold locked directory locked' hnew,
    (moved.set new).readBytes, p, q', ?_, (moved.set new).located, locked, ?_, locked'⟩
  · exact Disk.locate_set moved.hasDirectory _
      (Disk.locate_erase plain (Disk.locate_set directory _ hp))
  · rw [Disk.hasDirectory, Disk.entryAt?_set_ne _ ne.symm]
    exact Disk.hasDirectory_erase given

/-- A file that cannot be saved is as it was, and it cannot be saved again. -/
theorem exists_writeFile_fault (hname : isProjectName f.project = true)
    (hold : d.HoldsFile (s.filePath f.project) q bytes) (cannot : ¬ s.CanSave d f.project) :
    ∃ fault d', s.writeFile d f = (some fault, d') ∧
      d'.readBytes (s.filePath f.project) = .ok bytes ∧ ¬ s.CanSave d' f.project := by
  rw [writeFile_eq hname hold.located]
  cases hwrite : d.write (s.temporaryPath f.project) (RecordFile.render f.records).toUTF8 with
  | error fault => exact ⟨fault, d, rfl, hold.readBytes, cannot⟩
  | ok d₁ =>
    cases hp : d.locate (s.temporaryPath f.project) with
    | error fault =>
      rw [Disk.write, hp] at hwrite
      cases hwrite
    | ok p =>
      rw [Disk.write, hp] at hwrite
      simp only [bind, Except.bind] at hwrite
      split at hwrite
      · cases hwrite
      · split at hwrite
        · cases hwrite
        · rename_i locked directory
          cases hwrite
          rw [Bool.not_eq_true] at directory
          obtain ⟨ne, given⟩ := ne_of_locate hname hp hold.located
          -- only the place of the file itself can be in the way
          have locked' : q ∈ d.locked := by
            by_contra free
            exact cannot ⟨p, q, hp, hold.located, locked, directory, free⟩
          have hold₁ := hold.set_ne directory ne (.file (RecordFile.render f.records).toUTF8)
          have moved := rename_of_locked (Disk.locate_set directory _ hp) hold₁.located locked'
          refine ⟨.permissionDenied, _, ?_, hold₁.readBytes, ?_⟩
          · dsimp only
            rw [moved]
          · rintro ⟨-, q', -, hq', -, -, free⟩
            obtain rfl : q' = q := Except.ok.inj (hq'.symm.trans hold₁.located)
            exact free locked'

end RecordFolder

end LayerGraph
