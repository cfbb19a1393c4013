import LayerGraph.Proofs.PartialSave

/-!
# Saves that are made up for

What a store over a folder has accepted is kept until its file is written, whatever saves fail in
between. A save that fails leaves the changes it has not written, so a later one writes them; and when
nothing fails in a save, the file of each project that is kept says what is kept.

Meanwhile others may work on the disk, lock files and give them free, as long as they leave those
files alone that the store has read or written and has no changes for.

Main statements:
1. `Settled.load`, `Settled.update`, `Settled.save`, `Settled.change`: what each step keeps.
2. `Reaches.settled`: what holds after any history.
3. `save_resumes`: what comes of a save after any history.
-/

namespace LayerGraph

/-! ## Writes -/

/-- An order that was written for the records of an entity. -/
structure OrderWrite where
  project : String
  kind : EntityKind
  name : String
  order : Int
  layer : Option Layer
deriving DecidableEq, Repr

namespace OrderWrite

variable {w v : OrderWrite} {ws : List OrderWrite} {rs rs' : List EntityRecord}

/-- The other write is for the same entity. -/
def Renews (v w : OrderWrite) : Prop :=
  v.project = w.project ∧ v.kind = w.kind ∧ v.name = w.name

/-- The write is the last one of several for its entity. -/
def IsLast (w : OrderWrite) (ws : List OrderWrite) : Prop :=
  ∃ front back, ws = front ++ w :: back ∧ ∀ v ∈ back, ¬ v.Renews w

theorem IsLast.of_concat (h : w.IsLast (ws ++ [v])) : w = v ∨ w.IsLast ws ∧ ¬ v.Renews w := by
  obtain ⟨front, back, split, others⟩ := h
  rcases List.eq_nil_or_concat back with rfl | ⟨back, b, rfl⟩
  · exact .inl (List.cons.inj (List.append_inj_right' split rfl)).1.symm
  · rw [List.concat_eq_append] at split others
    rw [← List.cons_append, ← List.append_assoc] at split
    obtain ⟨rfl, last⟩ := List.append_inj' split rfl
    obtain rfl := (List.cons.inj last).1
    exact .inr ⟨⟨front, back, rfl, fun u hu => others u (List.mem_append_left _ hu)⟩,
      others v (List.mem_append_right _ (List.mem_singleton_self v))⟩

/-- There are records of the entity, and all of them have the order and the layer. -/
def IsCarriedBy (w : OrderWrite) (rs : List EntityRecord) : Prop :=
  (∃ r ∈ rs, r.isOf w.kind w.name = true) ∧
    ∀ r ∈ rs, r.isOf w.kind w.name = true → r.order = some w.order ∧ r.layer = w.layer

/-- What is written is carried. -/
theorem isCarriedBy_of_writeOrderOnto
    (h : writeOrderOnto rs w.kind w.name w.order w.layer = some rs') : w.IsCarriedBy rs' := by
  unfold writeOrderOnto at h
  split at h
  · next present =>
    cases h
    obtain ⟨r, hr, own⟩ := List.any_eq_true.1 present
    refine ⟨⟨_, List.mem_map_of_mem hr, ?_⟩, List.forall_mem_map.2 fun r _ own => ?_⟩
    · rw [if_pos own]
      exact own
    · split at own
      · next own => exact if_pos own ▸ ⟨rfl, rfl⟩
      · next other => exact absurd own other
  · cases h

/-- Writing for another entity takes nothing from what is carried. -/
theorem IsCarriedBy.writeOrderOnto {kind : EntityKind} {name : String} {order : Int}
    {layer : Option Layer} (carried : w.IsCarriedBy rs)
    (other : ¬ (kind = w.kind ∧ name = w.name))
    (h : writeOrderOnto rs kind name order layer = some rs') : w.IsCarriedBy rs' := by
  have untouched {r : EntityRecord} (own : r.isOf w.kind w.name = true) :
      r.isOf kind name ≠ true := by
    intro both
    simp only [EntityRecord.isOf, Bool.and_eq_true, decide_eq_true_eq] at own both
    exact other ⟨both.1.symm.trans own.1, both.2.symm.trans own.2⟩
  unfold LayerGraph.writeOrderOnto at h
  split at h
  · cases h
    obtain ⟨⟨r, hr, own⟩, all⟩ := carried
    refine ⟨⟨r, List.mem_map.2 ⟨r, hr, if_neg (untouched own)⟩, own⟩,
      List.forall_mem_map.2 fun r hr own => ?_⟩
    split at own
    · next both => exact absurd both (untouched own)
    · next apart =>
      rw [if_neg apart]
      exact all r hr own
  · cases h

end OrderWrite

namespace RecordFolder

variable {directory project : String} {ws : List OrderWrite} {w : OrderWrite}
  {f f' : RecordFolder} {d d' : Disk} {file : ProjectFile} {e : Option Error}

/-! ## Histories -/

/-- What a store over a folder and its disk may have gone through since the store was opened, with
the writes that it has accepted. -/
inductive Reaches (directory : String) : List OrderWrite → RecordFolder → Disk → Prop
  | opened (d : Disk) : Reaches directory [] { directory } d
  /-- A project is read, also by a write that is refused then. -/
  | read {ws : List OrderWrite} {f f' : RecordFolder} {d : Disk} {readers : Nat}
      {project : String} : Reaches directory ws f d → f.load d readers project = .ok f' →
      Reaches directory ws f' d
  /-- An order of 64 bits is accepted. -/
  | written {ws : List OrderWrite} {w : OrderWrite} {f f' : RecordFolder} {d : Disk} :
      Reaches directory ws f d → -2 ^ 63 ≤ w.order → w.order < 2 ^ 63 →
      (RecordStore.folder f).writeOrder d w.project w.kind w.name w.order w.layer =
        (none, .folder f') → Reaches directory (ws ++ [w]) f' d
  /-- The store is saved, which may fail. -/
  | saved {ws : List OrderWrite} {f f' : RecordFolder} {d d' : Disk} {e : Option Error} :
      Reaches directory ws f d → f.save d = (e, f', d') → Reaches directory ws f' d'
  /-- Others change the disk, but not the files of projects that are kept without changes. -/
  | changed {ws : List OrderWrite} {f : RecordFolder} {d d' : Disk} : Reaches directory ws f d →
      (∀ p file, f.file? p = some file → file.dirty = false →
        d'.readText (f.filePath p) = d.readText (f.filePath p)) →
      Reaches directory ws f d'

/-- What holds all the time. What is kept without changes is what the file says, and what has been
accepted is kept. -/
structure Settled (directory : String) (ws : List OrderWrite) (f : RecordFolder) (d : Disk) :
    Prop where
  place : f.directory = directory
  store : f.IsStore
  orders : f.HasOrders
  clean : ∀ p file, f.file? p = some file → file.dirty = false →
    parsed? directory d p = some file.records
  carried : ∀ w : OrderWrite, w.IsLast ws →
    ∃ file, f.file? w.project = some file ∧ w.IsCarriedBy file.records

/-! ## What each step keeps -/

theorem settled_opened (directory : String) (d : Disk) :
    Settled directory [] { directory } d where
  place := rfl
  store := ⟨nofun, List.nodup_nil⟩
  orders := nofun
  clean := nofun
  carried := by
    rintro w ⟨front, back, split, -⟩
    cases front <;> cases split

theorem Settled.load {readers : Nat} (h : Settled directory ws f d)
    (hload : f.load d readers project = .ok f') : Settled directory ws f' d := by
  have orders := h.orders.load hload
  rcases keepsMore_of_load hload with ⟨rfl, -⟩ | ⟨new, -, more⟩
  · exact h
  have projects : f'.projects = f.projects ++ [new.project] := by
    rw [RecordFolder.projects, more.files, List.map_append]
    rfl
  have absent : new.project ∉ f.projects := by
    rw [mem_projects, more.absent]
    simp
  constructor
  case place => exact more.directory.trans h.place
  case store =>
    constructor
    · rw [projects, List.forall_mem_append, List.forall_mem_singleton]
      exact ⟨h.store.named, more.named⟩
    · rw [projects, ← List.concat_eq_append]
      exact h.store.nodup.concat absent
  case orders => exact orders
  case clean =>
    intro p file hfile clean
    by_cases own : p = new.project
    · subst own
      obtain rfl := Option.some.inj (hfile.symm.trans more.file?_self)
      obtain ⟨content, hread, hrecords⟩ := more.read
      rw [h.place] at hread
      rw [parsed?, hread, hrecords]
    · exact h.clean p file ((file?_of_append more.files own).symm.trans hfile) clean
  case carried =>
    intro w last
    obtain ⟨file, hfile, carried⟩ := h.carried w last
    have apart : w.project ≠ new.project :=
      fun same => absent (same ▸ mem_projects.2 ⟨file, hfile⟩)
    exact ⟨file, (file?_of_append more.files apart).trans hfile, carried⟩

theorem Settled.update {rs : List EntityRecord} (h : Settled directory ws f d)
    (low : -2 ^ 63 ≤ w.order) (high : w.order < 2 ^ 63) (hfile : f.file? w.project = some file)
    (hwrite : writeOrderOnto file.records w.kind w.name w.order w.layer = some rs) :
    Settled directory (ws ++ [w])
      (f.updateFile w.project fun file => { file with records := rs, dirty := true }) d := by
  have updated (p : String) : (f.updateFile w.project fun file =>
      { file with records := rs, dirty := true }).file? p =
        if p = w.project then (f.file? p).map ({ · with records := rs, dirty := true })
        else f.file? p := file?_updateFile fun _ => rfl
  have own := updated w.project
  rw [if_pos rfl, hfile, Option.map_some] at own
  have others {p : String} (apart : p ≠ w.project) := (updated p).trans (if_neg apart)
  constructor
  case place => exact h.place
  case store =>
    have same : (f.updateFile w.project fun file =>
        { file with records := rs, dirty := true }).projects = f.projects :=
      projects_updateFile fun _ => rfl
    exact ⟨same ▸ h.store.named, same ▸ h.store.nodup⟩
  case orders =>
    intro p new hnew
    by_cases same : p = w.project
    · subst same
      obtain rfl := Option.some.inj (own.symm.trans hnew)
      exact hasOrder64_of_writeOrderOnto hwrite low high (h.orders _ file hfile)
    · exact h.orders p new ((others same).symm.trans hnew)
  case clean =>
    intro p new hnew clean
    by_cases same : p = w.project
    · subst same
      obtain rfl := Option.some.inj (own.symm.trans hnew)
      cases clean
    · exact h.clean p new ((others same).symm.trans hnew) clean
  case carried =>
    intro v last
    rcases last.of_concat with rfl | ⟨last, other⟩
    · exact ⟨_, own, OrderWrite.isCarriedBy_of_writeOrderOnto hwrite⟩
    · obtain ⟨old, hold, carried⟩ := h.carried v last
      by_cases same : v.project = w.project
      · rw [same, hfile] at hold
        obtain rfl := Option.some.inj hold
        have apart : ¬ (w.kind = v.kind ∧ w.name = v.name) := fun both => other ⟨same.symm, both⟩
        rw [same, own]
        exact ⟨_, rfl, carried.writeOrderOnto apart hwrite⟩
      · exact ⟨old, (others same).trans hold, carried⟩

theorem parsed?_of_keepsFile {rs : List EntityRecord}
    (h : d.KeepsFile d' (Path.join directory (fileName project)))
    (parsed : parsed? directory d project = some rs) : parsed? directory d' project = some rs := by
  unfold parsed? at parsed ⊢
  split at parsed
  · next content hread =>
    rw [h.readText content hread]
    exact parsed
  · cases parsed

theorem parsed?_of_render {rs : List EntityRecord} (orders : ∀ r ∈ rs, r.HasOrder64)
    (hread : d.readText (Path.join directory (fileName project)) = .ok (RecordFile.render rs)) :
    parsed? directory d project = some rs := by
  rw [parsed?, hread]
  exact congrArg some (RecordFile.records_render orders)

/-- No kept record changes. -/
theorem PartlySaved.records {done left : List String} (h : PartlySaved f d done left e f' d')
    (p : String) : (f'.file? p).map ProjectFile.records = (f.file? p).map ProjectFile.records := by
  by_cases hp : p ∈ done
  · obtain ⟨file, hfile, hfile', -⟩ := h.written p hp
    rw [hfile, hfile']
    rfl
  · rw [h.unchanged p hp]

/-- What is left after a save, whether or not it has failed. -/
theorem Settled.save {done left : List String} (h : Settled directory ws f d)
    (partly : PartlySaved f d done left e f' d') : Settled directory ws f' d' := by
  obtain rfl := h.place
  constructor
  case place => exact partly.directory
  case store => exact ⟨partly.projects ▸ h.store.named, partly.projects ▸ h.store.nodup⟩
  case orders =>
    intro p new hnew
    obtain ⟨old, hold, same⟩ := exists_file?_of_map (partly.records p) hnew
    exact same ▸ h.orders p old hold
  case clean =>
    intro p new hnew clean
    by_cases hp : p ∈ done
    · obtain ⟨file, hfile, hfile', hread⟩ := partly.written p hp
      obtain rfl := Option.some.inj (hfile'.symm.trans hnew)
      exact parsed?_of_render (h.orders p file hfile) hread
    · have hfile := (partly.unchanged p hp).symm.trans hnew
      have named := h.store.named p (mem_projects.2 ⟨new, hfile⟩)
      exact parsed?_of_keepsFile (partly.files p named hp) (h.clean p new hfile clean)
  case carried =>
    intro w last
    obtain ⟨file, hfile, carried⟩ := h.carried w last
    obtain ⟨new, hnew, same⟩ := exists_file?_of_map (partly.records w.project).symm hfile
    exact ⟨new, hnew, same ▸ carried⟩

theorem Settled.change (h : Settled directory ws f d)
    (same : ∀ p file, f.file? p = some file → file.dirty = false →
      d'.readText (f.filePath p) = d.readText (f.filePath p)) : Settled directory ws f d' := by
  obtain rfl := h.place
  refine ⟨rfl, h.store, h.orders, fun p file hfile clean => ?_, h.carried⟩
  have hread := same p file hfile clean
  unfold filePath at hread
  rw [parsed?, hread]
  exact h.clean p file hfile clean

theorem exists_file?_of_load {readers : Nat} (hload : f.load d readers project = .ok f') :
    ∃ file, f'.file? project = some file := by
  rcases keepsMore_of_load hload with ⟨rfl, kept⟩ | ⟨new, rfl, more⟩
  · exact kept
  · exact ⟨new, more.file?_self⟩

/-- What an accepted write has done: it has read the project, unless it was kept, and has written
onto what is kept of it. -/
theorem exists_of_writeOrder (h : (RecordStore.folder f).writeOrder d w.project w.kind w.name w.order
    w.layer = (none, .folder f')) : ∃ f₁ file rs, f.load d 1 w.project = .ok f₁ ∧
      f₁.file? w.project = some file ∧
      writeOrderOnto file.records w.kind w.name w.order w.layer = some rs ∧
      f' = f₁.updateFile w.project fun file => { file with records := rs, dirty := true } := by
  unfold RecordStore.writeOrder RecordStore.load at h
  dsimp only at h
  cases hload : f.load d 1 w.project with
  | error e =>
    rw [hload] at h
    cases h
  | ok f₁ =>
    obtain ⟨file, hfile⟩ := exists_file?_of_load hload
    rw [hload] at h
    simp only [Except.map, RecordFolder.writeOrder, records_of_file? hfile] at h
    cases hwrite : writeOrderOnto file.records w.kind w.name w.order w.layer with
    | none =>
      rw [hwrite] at h
      cases h
    | some rs =>
      rw [hwrite] at h
      cases h
      exact ⟨f₁, file, rs, rfl, hfile, hwrite, rfl⟩

theorem Reaches.settled (h : Reaches directory ws f d) : Settled directory ws f d := by
  induction h with
  | opened d => exact settled_opened directory d
  | read _ hload ih => exact ih.load hload
  | written _ low high accepted ih =>
    obtain ⟨f₁, file, rs, hload, hfile, hwrite, rfl⟩ := exists_of_writeOrder accepted
    exact (ih.load hload).update low high hfile hwrite
  | @saved ws f f' d d' e _ hsave ih =>
    obtain ⟨done, left, e', f₁, d₁, hsave', -, -, partly⟩ := ih.store.exists_save d
    cases hsave.symm.trans hsave'
    exact ih.save partly
  | changed _ same ih => exact ih.change same

/-! ## Two projects, one of them locked -/

/-- The file of a project with the table `T`. -/
def tableFile : String :=
  "\x7b\"kind\":\"table\",\"name\":\"T\"\x7d\n"

/-- A disk with the files of two projects, the second of which cannot be written. -/
def twoFiles : Disk where
  entries := [([Text.octets "records"], .directory),
    ([Text.octets "records", Text.octets "a.jsonl"], .file tableFile.toUTF8),
    ([Text.octets "records", Text.octets "b.jsonl"], .file tableFile.toUTF8)]
  locked := [[Text.octets "records", Text.octets "b.jsonl.tmp"]]

/-- A write for the table `T` of a project. -/
def writeTo (project : String) : OrderWrite :=
  ⟨project, .table, "T", 0, some .schema⟩

/-- A project whose table has been given its place. -/
def placedFile (project : String) (dirty : Bool) : ProjectFile :=
  ⟨project, [{ kind := .table, name := "T", order := some 0, layer := some .schema }], dirty⟩

/-- A store that has accepted a write for each of the two projects. -/
def changedStore : RecordFolder where
  directory := "records"
  files := [placedFile "a" true, placedFile "b" true]

/-- The store after the first project has been saved. -/
def halfSaved : RecordFolder where
  directory := "records"
  files := [placedFile "a" false, placedFile "b" true]

/-- The disk after the file of the first project has been written. -/
def halfWritten (new : ByteArray) : Disk :=
  twoFiles.moveOver [Text.octets "records", Text.octets "a.jsonl.tmp"]
    [Text.octets "records", Text.octets "a.jsonl"] (.file new)

/-- That disk after its lock has been taken away. -/
def freed (new : ByteArray) : Disk :=
  { halfWritten new with locked := [] }

theorem reaches_twoFiles :
    Reaches "records" [writeTo "a", writeTo "b"] changedStore twoFiles := by
  have first : Reaches "records" [writeTo "a"]
      { directory := "records", files := [placedFile "a" true] } twoFiles :=
    .written (.opened twoFiles) (by decide) (by decide) (by rfl)
  exact .written first (by decide) (by decide) (by rfl)

theorem canReplace_twoFiles : CanReplace "records" twoFiles "a"
    [Text.octets "records", Text.octets "a.jsonl.tmp"]
    [Text.octets "records", Text.octets "a.jsonl"] :=
  ⟨by rfl, by rfl, by decide, by rfl, by decide, by rfl⟩

theorem locate_halfWritten (new : ByteArray) :
    (halfWritten new).locate (halfSaved.filePath "b") =
      .ok [Text.octets "records", Text.octets "b.jsonl"] := by rfl

theorem writeFile_twoFiles (records : List EntityRecord) (dirty : Bool) :
    changedStore.writeFile twoFiles ⟨"a", records, dirty⟩ =
      (none, halfWritten (RecordFile.render records).toUTF8) := by
  have named : isProjectName "a" = true := by decide
  refine (writeFile_eq_none_iff named).2 ⟨twoFiles, _, _, ?_, canReplace_twoFiles, rfl⟩
  exact Disk.createDirectories_parent (isFileName_fileName named) canReplace_twoFiles.file

theorem write_halfWritten (new bytes : ByteArray) :
    (halfWritten new).write (halfSaved.temporaryPath "b") bytes = .error .permissionDenied := by
  rfl

theorem writeFile_halfWritten (new : ByteArray) (records : List EntityRecord) (dirty : Bool) :
    halfSaved.writeFile (halfWritten new) ⟨"b", records, dirty⟩ =
      (some .permissionDenied, halfWritten new) := by
  have named : isProjectName "b" = true := by decide
  rw [writeFile_eq (f := ⟨"b", records, dirty⟩) named (locate_halfWritten new), write_halfWritten]

theorem exists_save_twoFiles : ∃ new, changedStore.save twoFiles =
    (some (.file .permissionDenied), halfSaved, halfWritten new) := by
  have listed : changedStore.dirtyProjects = ["a", "b"] := by cbv
  have first : changedStore.file? "a" = some (placedFile "a" true) := by rfl
  have second : halfSaved.file? "b" = some (placedFile "b" true) := by rfl
  have marked : changedStore.updateFile "a" (fun file => { file with dirty := false }) =
      halfSaved := by rfl
  unfold placedFile at first second
  refine ⟨(RecordFile.render (placedFile "a" true).records).toUTF8, ?_⟩
  rw [save, listed, saveProjects, first]
  dsimp only
  rw [writeFile_twoFiles]
  dsimp only
  rw [marked, saveProjects, second]
  dsimp only
  rw [writeFile_halfWritten]
  rfl

theorem reaches_freed {new : ByteArray}
    (hsave : changedStore.save twoFiles =
      (some (.file .permissionDenied), halfSaved, halfWritten new)) :
    Reaches "records" [writeTo "a", writeTo "b"] halfSaved (freed new) := by
  have before := Reaches.saved reaches_twoFiles hsave
  refine .changed before fun p file hfile clean => ?_
  have parsed := before.settled.clean p file hfile clean
  have gained : Disk.Gains (halfWritten new) (freed new) := fun _ => .inl rfl
  unfold parsed? at parsed
  split at parsed
  · next content hread => exact ((gained.keepsFile _).readText content hread).trans hread.symm
  · cases parsed

theorem canWrite_freed (new : ByteArray) : halfSaved.CanWrite (freed new) "b" := by
  have can : CanReplace "records" (freed new) "b"
      [Text.octets "records", Text.octets "b.jsonl.tmp"]
      [Text.octets "records", Text.octets "b.jsonl"] :=
    ⟨by rfl, by rfl, List.not_mem_nil, by rfl, List.not_mem_nil, by rfl⟩
  have named : isProjectName "b" = true := by decide
  exact ⟨_, _, _, Disk.createDirectories_parent (isFileName_fileName named) can.file, can⟩

/-! ## Saving after faults -/

/-- After whatever a store has gone through, a save goes through the changed projects in the order of
their names. It writes those in front of the first one whose file cannot be written, and leaves that
one and all behind it as they are. When it does not fail, the file of each project that is kept says
what is kept, and carries every write that was accepted, if none for the same entity has come
later. -/
theorem save_resumes (h : Reaches directory ws f d) :
    (∀ d₁, ∃ done left e f' d', f.save d₁ = (e, f', d') ∧ Sorted.Ascending (done ++ left) ∧
      (∀ p, p ∈ done ++ left ↔ f.IsDirty p) ∧ PartlySaved f d₁ done left e f' d') ∧
    ∀ f' d', f.save d = (none, f', d') → (∀ p, ¬ f'.IsDirty p) ∧
      (∀ p file, f'.file? p = some file → parsed? directory d' p = some file.records) ∧
      ∀ w : OrderWrite, w.IsLast ws →
        ∃ rs, parsed? directory d' w.project = some rs ∧ w.IsCarriedBy rs := by
  have settled := h.settled
  refine ⟨settled.store.exists_save, fun f' d' hsave => ?_⟩
  obtain ⟨done, left, e, f₁, d₁, hsave', -, dirty, partly⟩ := settled.store.exists_save d
  cases hsave.symm.trans hsave'
  have after := settled.save partly
  have none_left : left = [] := by
    rcases partly.stopped with ⟨none_left, -⟩ | ⟨p, rest, fault, -, -, failed⟩
    · exact none_left
    · cases failed
  have clean : ∀ p file, f'.file? p = some file → file.dirty = false := by
    intro p file hfile
    by_cases hp : p ∈ done
    · obtain ⟨old, -, hfile', -⟩ := partly.written p hp
      obtain rfl := Option.some.inj (hfile'.symm.trans hfile)
      rfl
    · rw [none_left, List.append_nil] at dirty
      rw [← Bool.not_eq_true]
      exact fun isDirty => hp ((dirty p).2 ⟨file, (partly.unchanged p hp).symm.trans hfile, isDirty⟩)
  have kept : ∀ p file, f'.file? p = some file → parsed? directory d' p = some file.records :=
    fun p file hfile => after.clean p file hfile (clean p file hfile)
  refine ⟨?_, kept, fun w last => ?_⟩
  · rintro p ⟨file, hfile, isDirty⟩
    rw [clean p file hfile] at isDirty
    cases isDirty
  · obtain ⟨file, hfile, carried⟩ := after.carried w last
    exact ⟨file.records, kept _ file hfile, carried⟩

/-- Of two projects the first one is saved and the second one fails. When its file is given free, a
second save makes up for that, and both files carry what was written. -/
theorem save_resumes_twoFiles : ∃ f d,
    changedStore.save twoFiles = (some (.file .permissionDenied), f, d) ∧
      Reaches "records" [writeTo "a", writeTo "b"] f { d with locked := [] } ∧ f.IsDirty "b" ∧
      ∃ f' d', f.save { d with locked := [] } = (none, f', d') ∧ (∀ p, ¬ f'.IsDirty p) ∧
        ∀ w ∈ [writeTo "a", writeTo "b"],
          ∃ rs, parsed? "records" d' w.project = some rs ∧ w.IsCarriedBy rs := by
  obtain ⟨new, hsave⟩ := exists_save_twoFiles
  have reaches := reaches_freed hsave
  refine ⟨halfSaved, halfWritten new, hsave, reaches, ⟨placedFile "b" true, by rfl, by rfl⟩, ?_⟩
  obtain ⟨done, left, e, f', d', hsave', -, dirty, partly⟩ := (save_resumes reaches).1 (freed new)
  have smooth : e = none := by
    rcases partly.stopped with ⟨-, smooth⟩ | ⟨p, rest, fault, split, cannot, -⟩
    · exact smooth
    · obtain ⟨file, hfile, isDirty⟩ := (dirty p).1 (by simp [split])
      obtain ⟨hmem, rfl⟩ := mem_of_file? hfile
      obtain rfl | rfl : file = placedFile "a" false ∨ file = placedFile "b" true := by
        simpa [halfSaved] using hmem
      · cases isDirty
      · exact absurd (canWrite_freed new) cannot
  subst smooth
  obtain ⟨clean, -, carried⟩ := (save_resumes reaches).2 f' d' hsave'
  refine ⟨f', d', hsave', clean, fun w hw => carried w ?_⟩
  rcases List.mem_pair.1 hw with rfl | rfl
  · exact ⟨[], [writeTo "b"], rfl, by simp [OrderWrite.Renews, writeTo]⟩
  · exact ⟨[writeTo "a"], [], rfl, by simp⟩

end RecordFolder

end LayerGraph
