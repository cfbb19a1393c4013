import LayerGraph.Proofs.ReadBack

/-!
# Disks that gain directories

Creating the directories of a path puts directories where nothing was and touches nothing else, also
when it stops at a fault. So all ways stay open, and what was read before is read again. A file that
is there when a program begins to write beside it is still there when it is done.

Main statements:
1. `place_join`: a file in a directory lies directly below it.
2. `Gains.createDirectories`: creating directories adds directories and nothing else.
3. `Gains.locate`: ways stay open.
4. `KeepsFile`: what a path leads to has not changed, and how changes at other places keep it.
-/

namespace LayerGraph

/-! ## Places of files -/

namespace Disk

variable {d d' : Disk} {p q : Place} {path directory name other : String}

theorem foldl_step_of_walk {names : List Name} (h : d.walk p names = .ok q) :
    names.foldl Place.step p = q := by
  induction names generalizing p with
  | nil => exact Except.ok.inj h
  | cons name rest ih =>
    unfold walk at h
    split at h
    · cases h
    · split at h
      · cases h
      · exact ih h
    · cases h

/-- A path leads to its place, if it leads anywhere. -/
theorem place_of_locate (h : d.locate path = .ok q) : Path.place (Text.octets path) = q :=
  foldl_step_of_walk (locate_eq_ok.1 h).2.2.2

/-- A file in a directory lies directly below it. -/
theorem place_join (hname : IsFileName name) :
    Path.place (Text.octets (Path.join directory name)) =
      Path.place (Text.octets directory) ++ [Text.octets name] := by
  have plain := hname.plain
  by_cases empty : directory = ""
  · subst empty
    have join_eq : Path.join "" name = name := by simp [Path.join]
    have relative : (Text.octets name).head? ≠ some Name.slash :=
      fun head => plain.no_slash (List.mem_of_mem_head? head)
    rw [join_eq, Path.place, Path.names_of_no_slash plain.no_slash, Path.start, if_neg relative]
    exact Place.step_plain plain
  · -- a slash at the end of the directory's path makes one more name, which leads nowhere
    obtain ⟨front, directory_eq, join_eq⟩ : ∃ front, Path.place (Text.octets directory) =
          (Path.names front).foldl Place.step (Path.start (front ++ [Name.slash])) ∧
        Text.octets (Path.join directory name) = front ++ Name.slash :: Text.octets name := by
      by_cases closed : directory.toList.getLast? = some '/'
      · obtain ⟨base, hbase⟩ := List.getLast?_eq_some_iff.1 closed
        have whole (name : String) :
            Path.join directory name = String.ofList (base ++ '/' :: name.toList) :=
          String.toList_inj.1 (by simp [Path.join, hbase])
        have alone : directory = String.ofList (base ++ ['/']) :=
          String.toList_inj.1 (by simp [hbase])
        refine ⟨Text.octets (String.ofList base), ?_, ?_⟩
        · rw [alone, Path.octets_slash, Path.place, Path.names_append, List.foldl_append]
          simp [Path.names, Place.step, Text.octets]
        · rw [whole, Path.octets_slash, String.ofList_toList]
      · have whole : Path.join directory name =
            String.ofList (directory.toList ++ '/' :: name.toList) :=
          String.toList_inj.1 (by simp [Path.join, closed, empty])
        have nonempty : Text.octets directory ≠ [] := by
          rw [← String.ofList_toList (s := directory)]
          exact Text.octets_ne_nil (mt String.toList_eq_nil_iff.1 empty)
        refine ⟨Text.octets directory, ?_, ?_⟩
        · rw [Path.place, Path.start_append nonempty]
        · rw [whole, Path.octets_slash, String.ofList_toList, String.ofList_toList]
    have start_eq : Path.start (front ++ Name.slash :: Text.octets name) =
        Path.start (front ++ [Name.slash]) := by
      rw [← List.singleton_append, ← List.append_assoc]
      exact Path.start_append (by simp) _
    rw [directory_eq, Path.place, join_eq, start_eq, Path.names_append,
      Path.names_of_no_slash plain.no_slash, List.foldl_concat, Place.step_plain plain]

/-- The files of a directory have places of their own. -/
theorem name_eq_of_place_eq (hname : IsFileName name) (hother : IsFileName other)
    (same : Path.place (Text.octets (Path.join directory name)) =
      Path.place (Text.octets (Path.join directory other))) : name = other := by
  rw [place_join hname, place_join hother] at same
  exact Text.octets_injective (List.cons.inj (List.append_cancel_left same)).1

/-! ## Gaining directories -/

/-- What is at a place, unless it is a directory. -/
def contentAt? (d : Disk) (p : Place) : Option Entry :=
  match d.entryAt? p with
  | some .directory => none
  | e => e

/-- The second disk may have more directories than the first one, and all else that is there is the
same. -/
def Gains (d d' : Disk) : Prop :=
  ∀ p, d'.entryAt? p = d.entryAt? p ∨ d.entryAt? p = none ∧ d'.entryAt? p = some .directory

namespace Gains

theorem refl (d : Disk) : Gains d d := fun _ => .inl rfl

theorem trans {d'' : Disk} (h : Gains d d') (h' : Gains d' d'') : Gains d d'' := by
  intro p
  rcases h' p with same' | ⟨absent', there⟩
  · rw [same']
    exact h p
  · refine .inr ⟨?_, there⟩
    rcases h p with same | ⟨absent, -⟩
    · exact same ▸ absent'
    · exact absent

theorem set_directory (absent : d.entryAt? p = none) : Gains d (d.set p .directory) := by
  intro q
  by_cases own : q = p
  · subst own
    have given := not_given_of_hasDirectory (d := d) (p := q) (by rw [hasDirectory, absent])
    exact .inr ⟨absent, entryAt?_set_self given _⟩
  · exact .inl (entryAt?_set_ne _ own)

theorem of_createDirectory (h : d.createDirectory path = .ok d') : Gains d d' := by
  unfold createDirectory at h
  cases hp : d.locate (Path.withoutEndSlashes path) with
  | error fault =>
    rw [hp] at h
    cases h
  | ok p =>
    rw [hp] at h
    simp only [bind, Except.bind] at h
    split at h
    · cases h
    · next absent =>
      cases h
      rw [Bool.not_eq_true, Option.isSome_eq_false_iff, Option.isNone_iff_eq_none] at absent
      exact set_directory absent

theorem ensureDirectory (d : Disk) (path : String) : Gains d (d.ensureDirectory path).2 := by
  unfold Disk.ensureDirectory
  split
  · next created => exact of_createDirectory created
  · exact refl d
  · exact refl d

theorem ensureChain (d : Disk) (paths : List String) : Gains d (d.ensureChain paths).2 := by
  induction paths generalizing d with
  | nil => exact refl d
  | cons path above ih =>
    unfold Disk.ensureChain
    split
    · -- the directories above it come first
      have gained := ih d
      split
      · next created =>
        rw [created] at gained
        exact gained.trans (ensureDirectory _ path)
      · exact gained
    · exact ensureDirectory d path

theorem createDirectories (d : Disk) (path : String) : Gains d (d.createDirectories path).2 :=
  ensureChain d _

variable (h : Gains d d')

include h

theorem contentAt?_eq (p : Place) : d'.contentAt? p = d.contentAt? p := by
  unfold contentAt?
  rcases h p with same | ⟨absent, there⟩
  · rw [same]
  · rw [absent, there]

theorem entryAt?_eq {e : Entry} (there : d.entryAt? p = some e) : d'.entryAt? p = some e := by
  rcases h p with same | ⟨absent, -⟩
  · exact same.trans there
  · rw [absent] at there
    cases there

theorem walk {names : List Name} (walked : d.walk p names = .ok q) : d'.walk p names = .ok q := by
  induction names generalizing p with
  | nil => exact walked
  | cons name rest ih =>
    unfold Disk.walk at walked ⊢
    split at walked
    · cases walked
    · next here =>
      rw [h.entryAt?_eq here]
      dsimp only
      split at walked
      · cases walked
      · next short =>
        rw [if_neg short]
        exact ih walked
    · cases walked

theorem locate (located : d.locate path = .ok q) : d'.locate path = .ok q := by
  obtain ⟨noZero, nonempty, short, walked⟩ := locate_eq_ok.1 located
  exact locate_eq_ok.2 ⟨noZero, nonempty, short, h.walk walked⟩

end Gains

/-! ## Files that are kept -/

/-- What there is at the place of a path has not changed, but for directories, and a text that could
be read there can be read again. -/
structure KeepsFile (d d' : Disk) (path : String) : Prop where
  content : d'.contentAt? (Path.place (Text.octets path)) =
    d.contentAt? (Path.place (Text.octets path))
  readText : ∀ text, d.readText path = .ok text → d'.readText path = .ok text

theorem KeepsFile.refl (d : Disk) (path : String) : KeepsFile d d path := ⟨rfl, fun _ h => h⟩

theorem KeepsFile.trans {d'' : Disk} (h : KeepsFile d d' path) (h' : KeepsFile d' d'' path) :
    KeepsFile d d'' path :=
  ⟨h'.content.trans h.content, fun text hread => h'.readText text (h.readText text hread)⟩

theorem Gains.keepsFile (h : Gains d d') (path : String) : KeepsFile d d' path := by
  refine ⟨h.contentAt?_eq _, fun text hread => ?_⟩
  obtain ⟨q, bytes, hold, -⟩ := exists_holdsFile hread
  have ways : d'.locate path = d.locate path := (h.locate hold.located).trans hold.located.symm
  rw [readText_congr ways fun r hr => ?_, hread]
  obtain rfl := Except.ok.inj (hr.symm.trans hold.located)
  exact (h.entryAt?_eq hold.entry).trans hold.entry.symm

/-- A disk that differs from another one at other places only, none of which was a directory, keeps
the file. -/
theorem keepsFile_of_entryAt?_eq
    (ways : ∀ q, d.locate path = .ok q → d'.locate path = .ok q)
    (same : d'.entryAt? (Path.place (Text.octets path)) =
      d.entryAt? (Path.place (Text.octets path))) : KeepsFile d d' path := by
  refine ⟨by rw [contentAt?, contentAt?, same], fun text hread => ?_⟩
  obtain ⟨q, bytes, hold, -⟩ := exists_holdsFile hread
  rw [readText_congr ((ways q hold.located).trans hold.located.symm) fun r hr => ?_, hread]
  rw [place_of_locate hr] at same
  exact same

end Disk

end LayerGraph
