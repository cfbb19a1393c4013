import LayerGraph.Proofs.OtherFiles
import LayerGraph.Proofs.RecordText

/-!
# Files that are read back

A project's file is written one record a line and read line by line. Whatever the names and targets
of the records are, no line breaks off inside a record, none is taken for a blank one, and each is
read as the record it was written for. So a store that opens the file finds what another one has
written: the same records in the same order, and nothing to warn of.

Main statements:
1. `RecordFolder.readText_of_writeFile`: what a file holds that has been written.
2. `RecordFolder.load_of_writeFile`: what another store finds in it.
3. `RecordFile.records_read_back`: the text of any list of records is read back as the list.
-/

namespace LayerGraph

/-! ## Files that have been written -/

namespace Disk

variable {d d' : Disk} {p : Place} {source target : String}

theorem not_given_of_hasDirectory (h : d.hasDirectory p = false) : p.isGiven = false := by
  cases given : p.isGiven with
  | false => rfl
  | true =>
    rw [hasDirectory, entryAt?, if_pos given] at h
    cases h

/-- What moving a file comes to. -/
theorem exists_of_rename (h : d.rename source target = .ok d') : ∃ p q e,
    d.locate source = .ok p ∧ d.locate target = .ok q ∧ d.entryAt? p = some e ∧
      d.hasDirectory q = false ∧ d' = (d.erase p).set q e := by
  cases hp : d.locate source with
  | error fault =>
    rw [rename, hp] at h
    cases h
  | ok p =>
    cases hq : d.locate target with
    | error fault =>
      rw [rename, hp, hq] at h
      cases h
    | ok q =>
      rw [rename, hp, hq] at h
      simp only [bind, Except.bind] at h
      split at h
      · cases h
      · split at h
        · cases h
        · rename_i e entry
          split at h
          · cases h
          · rename_i directory
            exact ⟨p, q, e, rfl, rfl, entry, Bool.not_eq_true _ ▸ directory,
              (Except.ok.inj h).symm⟩

end Disk

namespace RecordFolder

variable {s : RecordFolder} {d d' : Disk} {f : ProjectFile}

/-- A file that has been written holds the text of the records. -/
theorem readText_of_writeFile (h : s.writeFile d f = (none, d')) :
    d'.readText (s.filePath f.project) = .ok (RecordFile.render f.records) := by
  unfold writeFile at h
  dsimp only at h
  split at h
  · cases h
  · rename_i d₁ _
    generalize hnew : (RecordFile.render f.records).toUTF8 = new at h
    split at h
    · cases h
    · rename_i d₂ hwrite
      obtain ⟨p, hp, directory, rfl⟩ := Disk.exists_set_of_write hwrite
      split at h
      · cases h
      · rename_i d₃ hmove
        obtain rfl : d₃ = d' := (Prod.mk.inj h).2
        obtain ⟨p', q, e, hp', hq, entry, free, rfl⟩ := Disk.exists_of_rename hmove
        have given := Disk.not_given_of_hasDirectory directory
        -- what is moved is what has just been written
        obtain rfl : p' = p :=
          Except.ok.inj (hp'.symm.trans (Disk.locate_set directory _ hp))
        rw [Disk.entryAt?_set_self given] at entry
        obtain rfl : Entry.file new = e := Option.some.inj entry
        have plain := Disk.hasDirectory_set_file (d := d₁) given new
        have free' : Disk.hasDirectory ((d₁.set p' (.file new)).erase p') q = false := by
          by_cases same : q = p'
          · rw [same]
            exact Disk.hasDirectory_erase given
          · rw [Disk.hasDirectory, Disk.entryAt?_erase_ne same]
            exact free
        have hold : Disk.HoldsFile (((d₁.set p' (.file new)).erase p').set q (.file new))
            (s.filePath f.project) q new :=
          ⟨Disk.locate_set free' _ (Disk.locate_erase plain hq),
            Disk.entryAt?_set_self (Disk.not_given_of_hasDirectory free) _⟩
        refine Disk.readText_of_readBytes ?_
        rw [hnew]
        exact hold.readBytes

/-- Another store of the folder that opens the file keeps what its text says, with the warnings of
each of its readers. -/
theorem load_of_writeFile (h : s.writeFile d f = (none, d'))
    (hname : isProjectName f.project = true) (readers : Nat) :
    ({ directory := s.directory } : RecordFolder).load d' readers f.project =
      .ok { directory := s.directory
            files := [⟨f.project, RecordFile.records (RecordFile.render f.records).toList, false⟩]
            warnings := (List.replicate readers (RecordFile.warnings f.project
              (RecordFile.render f.records).toList)).flatten } := by
  have path : ({ directory := s.directory } : RecordFolder).projectPath f.project =
      .ok (s.filePath f.project) := by
    rw [projectPath, if_pos hname]
    rfl
  unfold load
  rw [path]
  simp only [bind, Except.bind, readText_of_writeFile h]
  rfl

end RecordFolder

/-! ## Lines of records -/

namespace RecordFile

variable {rs : List EntityRecord}

/-- What the lines hold are the records, from one line number on. -/
theorem entries_render (h : ∀ r ∈ rs, r.HasOrder64) (start : Nat) :
    entries start (render rs).toList = (rs.zipIdx start).map fun (r, n) => (n, .ok r) := by
  unfold entries
  rw [lines_render, List.zipIdx_map, List.filterMap_map, ← List.filterMap_eq_map]
  refine List.filterMap_congr fun (r, n) hmem => ?_
  have held := EntityRecord.readLine_line (h r (List.fst_mem_of_mem_zipIdx hmem))
  simp only [Function.comp_apply, Prod.map_apply, id_eq]
  rw [isBlank_line, if_neg Bool.false_ne_true, held]

theorem warnings_render (h : ∀ r ∈ rs, r.HasOrder64) (project : String) :
    warnings project (render rs).toList = [] := by
  unfold warnings
  rw [entries_render h, List.filterMap_map, List.filterMap_eq_nil_iff]
  exact fun _ _ => rfl

/-- A list of records is read back from the file that was written for it, without warnings; orders
are integers of 64 bits. Each record is a line of its own that has no control in it, so neither a
line feed nor a carriage return, and that is read back as the record. -/
theorem records_read_back (project : String) (rs : List EntityRecord)
    (orders : ∀ r ∈ rs, r.HasOrder64) :
    (render rs).toList = (rs.flatMap fun r => r.line.toList ++ ['\n']) ∧
      (∀ r ∈ rs, Json.NoControls r.line.toList ∧ readLine r.line.toList = .ok r) ∧
      records (render rs).toList = rs ∧ warnings project (render rs).toList = [] ∧
      ∀ (s : RecordFolder) (d d' : Disk) (dirty : Bool),
        s.writeFile d ⟨project, rs, dirty⟩ = (none, d') →
        d'.readText (s.filePath project) = .ok (render rs) ∧
        (isProjectName project = true → ∀ readers,
          ({ directory := s.directory } : RecordFolder).load d' readers project =
            .ok { directory := s.directory, files := [⟨project, rs, false⟩] }) := by
  have back := records_render orders
  have silent := warnings_render orders project
  have each : ∀ r ∈ rs, Json.NoControls r.line.toList ∧ readLine r.line.toList = .ok r :=
    fun r hr => ⟨r.noControls_line, EntityRecord.readLine_line (orders r hr)⟩
  refine ⟨toList_render rs, each, back, silent, fun s d d' dirty written => ?_⟩
  have text := RecordFolder.readText_of_writeFile written
  refine ⟨text, fun hname readers => ?_⟩
  have loads := RecordFolder.load_of_writeFile written hname readers
  dsimp only at loads
  rw [back, silent, List.flatten_replicate_nil] at loads
  exact loads

/-- Names with quotes, line ends and separators, texts that are empty but there, the least order,
and a record without any of it. -/
def wildRecords : List EntityRecord :=
  [{ kind := .classDef, name := "\"a\\b\"\n\u2028\x01", parentClass := some ""
     usesTables := ["", "\x7d\r\n"], order := some (-9223372036854775808), layer := some .ui },
   { kind := .page, name := " \t" }]

/-- A folder with the file of a project, which holds something else. -/
def oldDisk : Disk where
  entries := [([Text.octets "records"], .directory),
    ([Text.octets "records", Text.octets "demo.jsonl"], .file "not json".toUTF8)]

/-- The file is written over, and another store finds both records there. -/
theorem records_read_back_wild :
    (∀ r ∈ wildRecords, r.HasOrder64) ∧
      ∃ d', RecordFolder.writeFile { directory := "records" } oldDisk ⟨"demo", wildRecords, true⟩ =
          (none, d') ∧
        ({ directory := "records" } : RecordFolder).load d' 4 "demo" =
          .ok { directory := "records", files := [⟨"demo", wildRecords, false⟩] } := by
  have orders : ∀ r ∈ wildRecords, r.HasOrder64 := by
    simp [wildRecords, EntityRecord.HasOrder64]
  have can : RecordFolder.CanSave { directory := "records" } oldDisk "demo" :=
    ⟨[Text.octets "records", Text.octets "demo.jsonl.tmp"],
      [Text.octets "records", Text.octets "demo.jsonl"], rfl, rfl, List.not_mem_nil, rfl,
      List.not_mem_nil⟩
  obtain ⟨d', written, -⟩ := RecordFolder.exists_writeFile (s := { directory := "records" })
    (f := ⟨"demo", wildRecords, true⟩) rfl ⟨rfl, rfl⟩ can
  obtain ⟨-, -, -, -, file⟩ := records_read_back "demo" wildRecords orders
  exact ⟨orders, d', written, (file _ _ _ _ written).2 rfl 4⟩

end RecordFile

end LayerGraph
