import LayerGraph.Proofs.PartialSave

/-!
# The paths of a project's files

A file is written under its own name with another ending and moved then. Project names may hold dots
anywhere but in front, so a project may be named like another one's file, or like the one that it is
written to first. Their files are different all the same: both endings are put behind the whole name
of the project, and neither of them ends with the other.

Main statements:
1. `withEnding_filePath`, `writeFile_eq_replaceFile`: a project's file is written as any file is
   that is replaced as a whole.
2. `contentAt?_replaceFile`: replacing a file changes nothing elsewhere, whatever comes of it.
3. `keepsFile_saveProjects`: saving leaves what is under other names than those of the projects.
4. `projectPath_apart`: two projects have four files in the folder, and a save of one leaves those
   of the other.
-/

namespace LayerGraph

/-! ## Endings -/

namespace Path

/-- A reversed name without its ending. A dot in front of a name begins no ending. -/
def reversedStem (name : List Char) : List Char :=
  let front := name.dropWhile (· ≠ '.')
  if front = [] ∨ front = ['.'] then name else front.tail

/-- The path with an ending in place of the one that its last name has. A path that does not end
with a name stays as it is. -/
def withEnding (path ending : String) : String :=
  let whole := dropEmpty path.toList.reverse
  let name := whole.takeWhile (· ≠ '/')
  if name = [] ∨ name = ['.'] ∨ name = ['.', '.'] then path
  else
    String.ofList ((whole.dropWhile (· ≠ '/')).reverse ++ (reversedStem name).reverse ++
      if ending = "" then [] else '.' :: ending.toList)

/-- The paths that a file is written at: its own, and the one that it is moved from. -/
def written (path : String) : List String :=
  [path, withEnding path "jsonl.tmp"]

/-- A path that a directory has directly below it: that of one name which leads down. -/
def IsChild (directory path : String) : Prop :=
  ∃ name, path = join directory name ∧ Name.Plain (Text.octets name) ∧
    place (Text.octets path) = place (Text.octets directory) ++ [Text.octets name]

/-- The ending of a name begins at its last dot. -/
theorem reversedStem_append {stem old : List Char} (nonempty : stem ≠ []) (noDot : '.' ∉ old) :
    reversedStem (stem ++ '.' :: old).reverse = stem.reverse := by
  have front : (stem ++ '.' :: old).reverse.dropWhile (· ≠ '.') = '.' :: stem.reverse := by
    rw [List.reverse_append, List.reverse_cons, List.append_assoc, List.singleton_append,
      List.dropWhile_append_of_pos, List.dropWhile_cons_of_neg (by simp)]
    intro c hc
    have hne : c ≠ '.' := fun same => noDot (List.mem_reverse.1 (same ▸ hc))
    simpa using hne
  rw [reversedStem, front]
  simp [nonempty]

/-- The last name of a path gets another ending, and what is above it stays. -/
theorem withEnding_name {above stem old : List Char} {ending : String}
    (isName : IsFileName (String.ofList (stem ++ '.' :: old))) (nonempty : stem ≠ [])
    (noDot : '.' ∉ old) (hending : ending ≠ "") (closed : above = [] ∨ above.head? = some '/') :
    withEnding (String.ofList (above.reverse ++ (stem ++ '.' :: old))) ending =
      String.ofList (above.reverse ++ (stem ++ '.' :: ending.toList)) := by
  have kept := dropEmpty_name isName above
  have cut := dropWhile_name isName above
  have noSlash : ∀ c ∈ (String.ofList (stem ++ '.' :: old)).toList, c ≠ '/' :=
    fun c hc => ne_slash_of_mem isName hc
  obtain ⟨cs, c, last, noEndDot⟩ := isName.last
  rw [String.toList_ofList] at kept cut noSlash last
  have stops : above.takeWhile (· ≠ '/') = [] ∧ above.dropWhile (· ≠ '/') = above := by
    rcases closed with rfl | head
    · exact ⟨rfl, rfl⟩
    · obtain ⟨rest, rfl⟩ := List.head?_eq_some_iff.1 head
      simp
  have whole : (String.ofList (above.reverse ++ (stem ++ '.' :: old))).toList.reverse =
      (stem ++ '.' :: old).reverse ++ above := by
    rw [String.toList_ofList, List.reverse_append, List.reverse_reverse]
  have name : ((stem ++ '.' :: old).reverse ++ above).takeWhile (· ≠ '/') =
      (stem ++ '.' :: old).reverse := by
    rw [List.takeWhile_append_of_pos, stops.1, List.append_nil]
    exact fun c hc => by simpa using noSlash c (List.mem_reverse.1 hc)
  have named : ¬((stem ++ '.' :: old).reverse = [] ∨ (stem ++ '.' :: old).reverse = ['.'] ∨
      (stem ++ '.' :: old).reverse = ['.', '.']) := by
    rw [last, List.reverse_concat]
    simp [noEndDot]
  unfold withEnding
  dsimp only
  rw [whole, kept, name, if_neg named, cut, stops.2, reversedStem_append nonempty noDot,
    if_neg hending, List.reverse_reverse, List.append_assoc]

end Path

/-! ## Replacing a file -/

namespace Disk

variable {d : Disk} {p : Place} {path : String} {content : ByteArray}

/-- Replaces a file as a whole: its directory is created, the file is written beside it under
another ending, and then moved. -/
def replaceFile (d : Disk) (path : String) (content : ByteArray) : Option FileFault × Disk :=
  let temporary := Path.withEnding path "jsonl.tmp"
  match d.createDirectories (Path.parent path) with
  | (some fault, d) => (some fault, d)
  | (none, d) =>
    match d.write temporary content with
    | .error fault => (some fault, d)
    | .ok d =>
      match d.rename temporary path with
      | .error fault => (some fault, d)
      | .ok d => (none, d)

theorem contentAt?_congr {d' : Disk} (same : d'.entryAt? p = d.entryAt? p) :
    d'.contentAt? p = d.contentAt? p := by
  rw [contentAt?, contentAt?, same]

/-- Replacing a file changes nothing at other places than its two, but for new directories, whatever
comes of it. -/
theorem contentAt?_replaceFile
    (apart : ∀ q ∈ Path.written path, p ≠ Path.place (Text.octets q)) :
    (d.replaceFile path content).2.contentAt? p = d.contentAt? p := by
  have gained := Gains.createDirectories d (Path.parent path)
  have file_ne := apart path List.mem_cons_self
  have temporary_ne := apart _ (List.mem_cons_of_mem _ List.mem_cons_self)
  unfold replaceFile
  dsimp only
  split
  · next created =>
    rw [created] at gained
    exact gained.contentAt?_eq p
  · next d₀ created =>
    rw [created] at gained
    rw [← gained.contentAt?_eq p]
    split
    · rfl
    · next d₁ written =>
      obtain ⟨q, hq, -, -, rfl⟩ := write_eq_ok.1 written
      obtain rfl := place_of_locate hq
      have same := contentAt?_congr (d₀.entryAt?_set_ne (.file content) temporary_ne)
      split
      · exact same
      · next d₂ moved =>
        obtain ⟨q, r, e, hq', hr, -, -, -, rfl⟩ := rename_eq_ok.1 moved
        obtain rfl := place_of_locate hq'
        obtain rfl := place_of_locate hr
        refine (contentAt?_congr ?_).trans same
        rw [entryAt?_set_ne _ file_ne, entryAt?_erase_ne temporary_ne]

end Disk

namespace RecordFolder

variable {s : RecordFolder} {d d' : Disk} {p : Place} {project other path path' : String}
  {file : ProjectFile} {names : List String}

/-! ## The files of a project -/

theorem withEnding_filePath (hname : isProjectName project = true) :
    Path.withEnding (s.filePath project) "jsonl.tmp" = s.temporaryPath project := by
  have file : (fileName project).toList = project.toList ++ '.' :: "jsonl".toList := by
    simp [fileName]
  have temporary : (temporaryName project).toList =
      project.toList ++ '.' :: "jsonl.tmp".toList := by
    simp [temporaryName]
  have isName : IsFileName (String.ofList (project.toList ++ '.' :: "jsonl".toList)) := by
    rw [← file, String.ofList_toList]
    exact isFileName_fileName hname
  have nonempty : project.toList ≠ [] := by
    intro empty
    rw [isProjectName, empty] at hname
    cases hname
  obtain ⟨above, closed, paths⟩ : ∃ above : List Char, (above = [] ∨ above.head? = some '/') ∧
      ∀ name, Path.join s.directory name = String.ofList (above.reverse ++ name.toList) := by
    rcases Path.exists_base s.directory with empty | ⟨base, hbase⟩
    · exact ⟨[], .inl rfl, fun name => String.toList_inj.1 (by simp [empty, Path.join])⟩
    · exact ⟨'/' :: base.reverse, .inr rfl, fun name => by simp [hbase]⟩
  rw [filePath, temporaryPath, paths, paths, file, temporary]
  exact Path.withEnding_name isName nonempty (by decide) (by decide) closed

/-- A project's file is replaced as a whole. -/
theorem writeFile_eq_replaceFile (hname : isProjectName file.project = true) :
    s.writeFile d file =
      d.replaceFile (s.filePath file.project) (RecordFile.render file.records).toUTF8 := by
  unfold Disk.replaceFile
  rw [withEnding_filePath hname]
  rfl

theorem projectPath_eq_ok : s.projectPath project = .ok path ↔
    isProjectName project = true ∧ path = s.filePath project := by
  unfold projectPath filePath
  split
  · next hname => simp [hname, eq_comm]
  · next hname => simp [hname]

theorem written_filePath (hname : isProjectName project = true) :
    Path.written (s.filePath project) = [s.filePath project, s.temporaryPath project] := by
  rw [Path.written, withEnding_filePath hname]

theorem isChild_join {name : String} (isName : IsFileName name) :
    Path.IsChild s.directory (Path.join s.directory name) :=
  ⟨name, rfl, isName.plain, Disk.place_join isName⟩

/-! ## Saves -/

/-- What each write of a file keeps is kept by a save. -/
theorem saveProjects_keeps {R : Disk → Disk → Prop} (refl : ∀ d, R d d)
    (trans : ∀ d d' d'', R d d' → R d' d'' → R d d'')
    (writes : ∀ d (file : ProjectFile), file.project ∈ names → R d (s.writeFile d file).2)
    (d : Disk) : R d (s.saveProjects d names).2.2 := by
  induction names generalizing s d with
  | nil => exact refl d
  | cons project rest ih =>
    have later : ∀ d (file : ProjectFile), file.project ∈ rest → R d (s.writeFile d file).2 :=
      fun d file hfile => writes d file (List.mem_cons_of_mem project hfile)
    unfold saveProjects
    split
    · exact ih later d
    · next file hfile =>
      have written := writes d file ((mem_of_file? hfile).2 ▸ List.mem_cons_self)
      split
      · next fault d₁ failed =>
        rw [failed] at written
        exact written
      · next d₁ done =>
        rw [done] at written
        exact trans _ _ _ written (ih (s := s.updateFile project _) later d₁)

/-- A save changes nothing at other places than those of the files that it writes. -/
theorem contentAt?_saveProjects (named : ∀ project ∈ names, isProjectName project = true)
    (apart : ∀ project ∈ names, ∀ q ∈ Path.written (s.filePath project),
      p ≠ Path.place (Text.octets q)) :
    (s.saveProjects d names).2.2.contentAt? p = d.contentAt? p := by
  refine saveProjects_keeps (R := fun d d' => d'.contentAt? p = d.contentAt? p) (fun _ => rfl)
    (fun _ _ _ h h' => h'.trans h) (fun d file hfile => ?_) d
  rw [writeFile_eq_replaceFile (named _ hfile)]
  exact Disk.contentAt?_replaceFile (apart _ hfile)

/-- A save leaves what is under other names than those of the files that it writes. -/
theorem keepsFile_saveProjects {name : String}
    (named : ∀ project ∈ names, isProjectName project = true) (isName : IsFileName name)
    (foreign : ∀ project ∈ names, IsForeign project name) (d : Disk) :
    Disk.KeepsFile d (s.saveProjects d names).2.2 (Path.join s.directory name) := by
  refine saveProjects_keeps (R := fun d d' => Disk.KeepsFile d d' (Path.join s.directory name))
    (fun d => .refl d _) (fun _ _ _ h h' => h.trans h') (fun d file hfile => ?_) d
  cases hwrite : s.writeFile d file with
  | mk failure d' =>
    cases failure with
    | none => exact keepsFile_of_writeFile (named _ hfile) hwrite isName (foreign _ hfile)
    | some fault => exact keepsFile_of_fault (named _ hfile) hwrite isName (foreign _ hfile).2

/-! ## Two projects -/

/-- The names of the files of two projects. -/
def fileNames (project other : String) : List String :=
  [fileName project, temporaryName project, fileName other, temporaryName other]

theorem nodup_fileNames (ne : project ≠ other) : (fileNames project other).Nodup := by
  have files := (isForeign_fileName ne).1
  have temporaries := (isForeign_temporaryName ne).2
  have apart := fileName_ne_temporaryName
  simp [fileNames, apart, (apart _ _).symm, files, temporaries]

theorem isFileName_of_mem (hname : isProjectName project = true)
    (hother : isProjectName other = true) :
    ∀ name ∈ fileNames project other, IsFileName name := by
  simp only [fileNames, List.forall_mem_cons]
  exact ⟨isFileName_fileName hname, isFileName_temporaryName hname, isFileName_fileName hother,
    isFileName_temporaryName hother, nofun⟩

/-- Two projects have four files, all directly in the folder. A project's file is replaced as a
whole, and whatever comes of that, nothing changes at other places than its two, and the files of
the other project are as they were. -/
theorem projectPath_apart (s : RecordFolder) (project other : String) {path path' : String}
    (hpath : s.projectPath project = .ok path) (hpath' : s.projectPath other = .ok path')
    (ne : project ≠ other) :
    ((Path.written path ++ Path.written path').map fun q =>
        Path.place (Text.octets q)).Nodup ∧
      (∀ q ∈ Path.written path ++ Path.written path', Path.IsChild s.directory q) ∧
      (∀ d file, file.project = project →
        s.writeFile d file = d.replaceFile path (RecordFile.render file.records).toUTF8) ∧
      ∀ d, (∀ p, (∀ q ∈ Path.written path, p ≠ Path.place (Text.octets q)) →
          (s.saveProjects d [project]).2.2.contentAt? p = d.contentAt? p) ∧
        ∀ q ∈ Path.written path', Disk.KeepsFile d (s.saveProjects d [project]).2.2 q := by
  obtain ⟨hname, rfl⟩ := projectPath_eq_ok.1 hpath
  obtain ⟨hother, rfl⟩ := projectPath_eq_ok.1 hpath'
  have isName := isFileName_of_mem hname hother
  have paths : Path.written (s.filePath project) ++ Path.written (s.filePath other) =
      (fileNames project other).map (Path.join s.directory) := by
    rw [written_filePath hname, written_filePath hother]
    rfl
  have named : ∀ p ∈ [project], isProjectName p = true := List.forall_mem_singleton.2 hname
  refine ⟨?_, ?_, ?_, fun d => ⟨fun p hp => ?_, ?_⟩⟩
  · rw [paths, List.map_map]
    refine (nodup_fileNames ne).map_on fun a ha b hb same => ?_
    exact Disk.name_eq_of_place_eq (isName a ha) (isName b hb) same
  · rw [paths]
    exact List.forall_mem_map.2 fun name hmem => isChild_join (isName name hmem)
  · rintro d file rfl
    exact writeFile_eq_replaceFile hname
  · exact contentAt?_saveProjects named (List.forall_mem_singleton.2 hp)
  · have keeps {name : String} (isName : IsFileName name) (foreign : IsForeign project name) :
        Disk.KeepsFile d (s.saveProjects d [project]).2.2 (Path.join s.directory name) :=
      keepsFile_saveProjects named isName (List.forall_mem_singleton.2 foreign) d
    rw [written_filePath hother]
    simp only [List.forall_mem_cons]
    exact ⟨keeps (isFileName_fileName hother) (isForeign_fileName ne.symm),
      keeps (isFileName_temporaryName hother) (isForeign_temporaryName ne.symm), nofun⟩

/-- A folder whose projects are named `a` and like the file of `a`. -/
def dottedFolder : RecordFolder where
  directory := "../data"
  files := [{ project := "a", records := [], dirty := true }]

def dottedDisk : Disk where
  entries := [([Name.up, Text.octets "data"], .directory),
    ([Name.up, Text.octets "data", Text.octets "a.jsonl.jsonl"], .file "kept".toUTF8)]

theorem projectPath_apart_dottedFolder :
    (["../data/a.jsonl", "../data/a.jsonl.tmp", "../data/a.jsonl.jsonl",
        "../data/a.jsonl.jsonl.tmp"].map fun q => Path.place (Text.octets q)).Nodup ∧
      (dottedFolder.saveProjects dottedDisk ["a"]).2.2.readText "../data/a.jsonl.jsonl" =
        .ok "kept" := by
  have hpath : dottedFolder.projectPath "a" = .ok "../data/a.jsonl" :=
    projectPath_eq_ok.2 ⟨by decide, by decide⟩
  have hpath' : dottedFolder.projectPath "a.jsonl" = .ok "../data/a.jsonl.jsonl" :=
    projectPath_eq_ok.2 ⟨by decide, by decide⟩
  have file : Path.written "../data/a.jsonl" = ["../data/a.jsonl", "../data/a.jsonl.tmp"] := by
    decide +kernel
  have file' : Path.written "../data/a.jsonl.jsonl" =
      ["../data/a.jsonl.jsonl", "../data/a.jsonl.jsonl.tmp"] := by decide +kernel
  have hread : dottedDisk.readText "../data/a.jsonl.jsonl" = .ok "kept" :=
    Disk.readText_of_readBytes rfl
  obtain ⟨places, -, -, save⟩ :=
    projectPath_apart dottedFolder "a" "a.jsonl" hpath hpath' (by decide)
  rw [file, file'] at places
  refine ⟨places, ((save dottedDisk).2 _ ?_).readText _ hread⟩
  rw [file']
  exact List.mem_cons_self

end RecordFolder

end LayerGraph
