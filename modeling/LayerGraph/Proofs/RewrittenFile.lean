import LayerGraph.Proofs.FolderReads
import LayerGraph.Proofs.Rebuild

/-!
# What is left of a file that is saved

A file is written from the records that are kept, and these differ from the records of the file in
their orders and layers only. So a line that holds a record stays, in its place, as the line of that
record. What the records do not have is gone: lines that hold no record, and members that records do
not know.

Main statements:
1. `RecordFolder.IsReadable.exists_saveProjects`: a save leaves a file as it is or writes what is
   kept.
2. `RecordStore.inStep_run`: what is kept stays in step with the files, whatever a store is asked.
3. `Workspace.build_rewrites`: what a build leaves of the lines of a file.
-/

namespace LayerGraph

variable {d d' : Disk} {project : String}

/-! ## Records but for their place -/

namespace EntityRecord

variable {r r' r'' : EntityRecord}

/-- The records differ at most in their order and their layer. -/
def SameButPlace (r r' : EntityRecord) : Prop :=
  ∃ order layer, r' = { r with order, layer }

theorem SameButPlace.refl (r : EntityRecord) : r.SameButPlace r := ⟨r.order, r.layer, rfl⟩

theorem SameButPlace.trans (h : r.SameButPlace r') (h' : r'.SameButPlace r'') :
    r.SameButPlace r'' := by
  obtain ⟨order, layer, rfl⟩ := h
  obtain ⟨order', layer', rfl⟩ := h'
  exact ⟨order', layer', rfl⟩

theorem SameButPlace.size_eq (h : r.SameButPlace r') : r'.size = r.size := by
  obtain ⟨order, layer, rfl⟩ := h
  rfl

/-- Whether a member tells the place of a record. -/
def isPlaceMember (m : RecordField × Json.Value) : Bool :=
  m.1 = .order || m.1 = .layer

/-- All other members are the same. -/
theorem SameButPlace.filter_members (h : r.SameButPlace r') :
    r'.members.filter (!isPlaceMember ·) = r.members.filter (!isPlaceMember ·) := by
  obtain ⟨order, layer, rfl⟩ := h
  have none_left {α : Type} {f : RecordField} (hf : f = .order ∨ f = .layer) (o : Option α)
      (write : α → Json.Value) :
      (o.toList.map fun a => (f, write a)).filter (!isPlaceMember ·) = [] := by
    rw [List.filter_eq_nil_iff, List.forall_mem_map]
    rcases hf with rfl | rfl <;> simp [isPlaceMember]
  simp only [members, List.filter_append, none_left (.inl rfl), none_left (.inr rfl)]

end EntityRecord

theorem forall₂_sameButPlace_refl (rs : List EntityRecord) :
    List.Forall₂ EntityRecord.SameButPlace rs rs :=
  List.forall₂_same.2 fun r _ => .refl r

theorem forall₂_sameButPlace_trans {rs rs' rs'' : List EntityRecord}
    (h : List.Forall₂ EntityRecord.SameButPlace rs rs')
    (h' : List.Forall₂ EntityRecord.SameButPlace rs' rs'') :
    List.Forall₂ EntityRecord.SameButPlace rs rs'' := by
  induction h generalizing rs'' with
  | nil =>
    cases h'
    exact .nil
  | cons first _ ih =>
    cases h' with
    | cons first' rest' => exact .cons (first.trans first') (ih rest')

/-- Writing an order changes only the places of records. -/
theorem sameButPlace_writeOrderOnto {rs rs' : List EntityRecord} {kind : EntityKind} {name : String}
    {order : Int} {layer : Option Layer} (h : writeOrderOnto rs kind name order layer = some rs') :
    List.Forall₂ EntityRecord.SameButPlace rs rs' := by
  unfold writeOrderOnto at h
  split at h
  · cases h
    refine List.forall₂_map_right_iff.2 (List.forall₂_same.2 fun r _ => ?_)
    split
    · exact ⟨some order, layer, rfl⟩
    · exact .refl r
  · cases h

/-! ## Lines -/

namespace RecordFile

/-- A line stands for an older one: it is the line of the record that was there, of which only the
order and the layer may have changed, so that all other members are as they were. -/
structure StandsForLine (old new : List Char) (r r' : EntityRecord) : Prop where
  held : lineRecord? old = some r
  line : new = r'.line.toList
  same : r.SameButPlace r'
  members : r'.members.filter (!EntityRecord.isPlaceMember ·) =
    r.members.filter (!EntityRecord.isPlaceMember ·)

/-- A text is rewritten: the new one has a line for each line of the old one that holds a record, in
the same order, and it has no other lines. -/
def IsRewritten (old new : String) : Prop :=
  List.Forall₂ (fun line line' => ∃ r r', StandsForLine line line' r r')
    ((Text.lines old.toList).filter fun line => (lineRecord? line).isSome) (Text.lines new.toList)

theorem isRewritten_render {old : String} {rs : List EntityRecord}
    (h : List.Forall₂ EntityRecord.SameButPlace (records old.toList) rs) :
    IsRewritten old (render rs) := by
  unfold IsRewritten
  rw [lines_render]
  rw [records_eq] at h
  generalize Text.lines old.toList = lines at h ⊢
  induction lines generalizing rs with
  | nil =>
    cases h
    exact .nil
  | cons line lines ih =>
    cases hline : lineRecord? line with
    | none =>
      rw [List.filterMap_cons_none hline] at h
      rw [List.filter_cons_of_neg (by simp [hline])]
      exact ih h
    | some r =>
      rw [List.filterMap_cons_some hline] at h
      rw [List.filter_cons_of_pos (by simp [hline])]
      cases h with
      | cons first rest => exact .cons ⟨r, _, hline, rfl, first, first.filter_members⟩ (ih rest)

end RecordFile

/-! ## Folders in step with their files -/

namespace RecordFolder

variable {f f' : RecordFolder} {file : ProjectFile} {p : String}

/-- What is kept of each project differs from the records of its file in orders and layers only. -/
def InStep (f : RecordFolder) (d : Disk) : Prop :=
  ∀ p file, f.file? p = some file → isProjectName p = true ∧
    ∃ content, d.readText (f.filePath p) = .ok content ∧
      List.Forall₂ EntityRecord.SameButPlace (RecordFile.records content.toList) file.records

theorem inStep_fresh (directory : String) (d : Disk) : InStep { directory } d := nofun

theorem file?_updateFile {change : ProjectFile → ProjectFile}
    (same : ∀ file, (change file).project = file.project) :
    (f.updateFile project change).file? p =
      if p = project then (f.file? p).map change else f.file? p := by
  have names (file : ProjectFile) :
      (if file.project = project then change file else file).project = file.project := by
    split
    · exact same file
    · rfl
  unfold file? updateFile
  simp only [List.find?_map, Function.comp_def, names]
  cases hfile : f.files.find? (·.project = p) with
  | none => simp
  | some file =>
    have own : file.project = p := by simpa using List.find?_some hfile
    rw [Option.map_some, own]
    split <;> rfl

/-- Reading keeps a store in step: a project that is read is kept as its file has it. -/
theorem InStep.load {readers : Nat} (h : f.InStep d) (hload : f.load d readers project = .ok f') :
    f'.InStep d ∧ f'.directory = f.directory ∧ ∃ file, f'.file? project = some file := by
  rcases keepsMore_of_load hload with ⟨rfl, kept⟩ | ⟨new, rfl, more⟩
  · exact ⟨h, rfl, kept⟩
  · refine ⟨fun p file hfile => ?_, more.directory, new, more.file?_self⟩
    rw [filePath, more.directory]
    by_cases own : p = new.project
    · subst own
      obtain rfl := Option.some.inj (hfile.symm.trans more.file?_self)
      obtain ⟨content, hread, hrecords⟩ := more.read
      exact ⟨more.named, content, hread, hrecords ▸ forall₂_sameButPlace_refl _⟩
    · exact h p file ((file?_of_append more.files own).symm.trans hfile)

/-- So does writing an order onto what is kept. -/
theorem InStep.update {rs : List EntityRecord} (h : f.InStep d)
    (hfile : f.file? project = some file)
    (hrs : List.Forall₂ EntityRecord.SameButPlace file.records rs) :
    (f.updateFile project fun file => { file with records := rs, dirty := true }).InStep d := by
  intro p new hnew
  rw [file?_updateFile (fun _ => by rfl)] at hnew
  split at hnew
  · rename_i own
    subst own
    rw [hfile] at hnew
    cases hnew
    obtain ⟨named, content, hread, same⟩ := h p file hfile
    exact ⟨named, content, hread, forall₂_sameButPlace_trans same hrs⟩
  · exact h p new hnew

/-- Some change to the project waits to be saved. -/
def IsDirty (f : RecordFolder) (project : String) : Prop :=
  ∃ file, f.file? project = some file ∧ file.dirty = true

/-- The orders that are kept have 64 bits, so that they can be read again. -/
def HasOrders (f : RecordFolder) : Prop :=
  ∀ p file, f.file? p = some file → ∀ r ∈ file.records, r.HasOrder64

/-- What comes of writing an order: the store stays in step, and what was written waits to be
saved. -/
structure WriteOutcome (f : RecordFolder) (d : Disk) (project : String) (order : Int)
    (e : Option Error) (f' : RecordFolder) : Prop where
  directory : f'.directory = f.directory
  inStep : f'.InStep d
  changed : e = none ∨ f.IsDirty project → f'.IsDirty project
  orders : f.HasOrders → -2 ^ 63 ≤ order → order < 2 ^ 63 → f'.HasOrders

theorem HasOrders.load {readers : Nat} (h : f.HasOrders)
    (hload : f.load d readers project = .ok f') : f'.HasOrders := by
  rcases keepsMore_of_load hload with ⟨rfl, -⟩ | ⟨new, rfl, more⟩
  · exact h
  · intro p file hfile
    by_cases own : p = new.project
    · subst own
      obtain rfl := Option.some.inj (hfile.symm.trans more.file?_self)
      obtain ⟨content, -, hrecords⟩ := more.read
      rw [hrecords]
      exact fun r hr => RecordFile.hasOrder64_of_mem hr
    · exact h p file ((file?_of_append more.files own).symm.trans hfile)

theorem IsDirty.load {readers : Nat} (h : f.IsDirty project)
    (hload : f.load d readers project = .ok f') : f' = f := by
  obtain ⟨file, hfile, -⟩ := h
  rw [RecordFolder.load, hfile] at hload
  exact (Except.ok.inj hload).symm

theorem InStep.writeOutcome_update {rs : List EntityRecord} {kind : EntityKind} {name : String}
    {order : Int} {layer : Option Layer} (h : f.InStep d) (hfile : f.file? project = some file)
    (hwrite : writeOrderOnto file.records kind name order layer = some rs) :
    WriteOutcome f d project order none
      (f.updateFile project fun file => { file with records := rs, dirty := true }) := by
  refine ⟨rfl, h.update hfile (sameButPlace_writeOrderOnto hwrite), fun _ => ?_, ?_⟩
  · refine ⟨{ file with records := rs, dirty := true }, ?_, rfl⟩
    rw [file?_updateFile (fun _ => by rfl), if_pos rfl, hfile]
    rfl
  · intro orders low high p new hnew
    rw [file?_updateFile (fun _ => by rfl)] at hnew
    split at hnew
    · rename_i own
      subst own
      rw [hfile] at hnew
      cases hnew
      exact hasOrder64_of_writeOrderOnto hwrite low high (orders p file hfile)
    · exact orders p new hnew

theorem InStep.exists_writeOrder (h : f.InStep d) (project : String) (kind : EntityKind)
    (name : String) (order : Int) (layer : Option Layer) : ∃ e f',
    (RecordStore.folder f).writeOrder d project kind name order layer = (e, .folder f') ∧
      WriteOutcome f d project order e f' := by
  unfold RecordStore.writeOrder RecordStore.load
  dsimp only
  cases hload : f.load d 1 project with
  | error e =>
    exact ⟨some e, f, rfl, rfl, h, fun or => or.resolve_left (Option.some_ne_none e),
      fun orders _ _ => orders⟩
  | ok f₁ =>
    obtain ⟨inStep, directory, file, hfile⟩ := h.load hload
    have read (dirty : f.IsDirty project) : f₁.IsDirty project := by rwa [dirty.load hload]
    simp only [Except.map, RecordFolder.writeOrder, records_of_file? hfile]
    cases hwrite : writeOrderOnto file.records kind name order layer with
    | none =>
      exact ⟨_, f₁, rfl, directory, inStep,
        fun or => read (or.resolve_left (Option.some_ne_none _)),
        fun orders _ _ => orders.load hload⟩
    | some rs =>
      have outcome := inStep.writeOutcome_update hfile hwrite
      exact ⟨none, _, rfl, outcome.directory.trans directory, outcome.inStep,
        fun _ => outcome.changed (.inl rfl), fun orders => outcome.orders (orders.load hload)⟩

/-! ## Saving -/

/-- What comes of saving projects: each file is as it was, or holds the text of what is kept; the
latter if nothing failed and the project was to be saved. No kept record changes. -/
structure SaveFrame (f : RecordFolder) (d : Disk) (names : List String) (e : Option FileFault)
    (f' : RecordFolder) (d' : Disk) : Prop where
  directory : f'.directory = f.directory
  records : ∀ p, (f'.file? p).map ProjectFile.records = (f.file? p).map ProjectFile.records
  files : ∀ p, isProjectName p = true → d'.readText (f.filePath p) = d.readText (f.filePath p) ∨
    ∃ file, f.file? p = some file ∧
      d'.readText (f.filePath p) = .ok (RecordFile.render file.records)
  saved : e = none → ∀ p ∈ names, ∀ file, f.file? p = some file →
    d'.readText (f.filePath p) = .ok (RecordFile.render file.records)

/-- What is kept is of projects whose files can be read. -/
def IsReadable (f : RecordFolder) (d : Disk) : Prop :=
  ∀ p file, f.file? p = some file →
    isProjectName p = true ∧ ∃ content, d.readText (f.filePath p) = .ok content

theorem InStep.isReadable (h : f.InStep d) : f.IsReadable d := by
  intro p file hfile
  obtain ⟨named, content, hread, -⟩ := h p file hfile
  exact ⟨named, content, hread⟩

/-- A project that has been saved is marked so. -/
def markSaved (f : RecordFolder) (project : String) : RecordFolder :=
  f.updateFile project fun file => { file with dirty := false }

theorem map_records_markSaved (p : String) :
    ((f.markSaved project).file? p).map ProjectFile.records =
      (f.file? p).map ProjectFile.records := by
  rw [markSaved, file?_updateFile (fun _ => by rfl)]
  split
  · rw [Option.map_map]
    rfl
  · rfl

theorem exists_file?_of_map
    (same : (f'.file? p).map ProjectFile.records = (f.file? p).map ProjectFile.records)
    (hfile : f'.file? p = some file) :
    ∃ old, f.file? p = some old ∧ old.records = file.records := by
  rw [hfile] at same
  exact Option.map_eq_some_iff.1 same.symm

/-- A project that has been written can be read, and others can as before. -/
theorem IsReadable.markSaved {d₁ : Disk} {text : String} (h : f.IsReadable d)
    (written : f.Written project text d d₁) : (f.markSaved project).IsReadable d₁ := by
  intro p file hfile
  obtain ⟨old, hold, -⟩ := exists_file?_of_map (map_records_markSaved p) hfile
  obtain ⟨named, content, hread⟩ := h p old hold
  refine ⟨named, ?_⟩
  by_cases own : p = project
  · subst own
    exact ⟨text, written.readText⟩
  · exact ⟨content, (written.readText_other p named own).trans hread⟩

/-- One project is saved, and then the others. -/
theorem SaveFrame.of_written {names : List String} {e : Option FileFault} {d₁ : Disk}
    (hfile : f.file? project = some file)
    (written : f.Written project (RecordFile.render file.records) d d₁)
    (hname : isProjectName project = true)
    (frame : SaveFrame (f.markSaved project) d₁ names e f' d') :
    SaveFrame f d (project :: names) e f' d' := by
  have files (p : String) (hp : isProjectName p = true) :
      d'.readText (f.filePath p) = d₁.readText (f.filePath p) ∨ ∃ file, f.file? p = some file ∧
        d'.readText (f.filePath p) = .ok (RecordFile.render file.records) := by
    refine (frame.files p hp).imp_right ?_
    rintro ⟨new, hnew, hread⟩
    obtain ⟨old, hold, same⟩ := exists_file?_of_map (map_records_markSaved p) hnew
    exact ⟨old, hold, same ▸ hread⟩
  refine ⟨frame.directory, fun p => (frame.records p).trans (map_records_markSaved p),
    fun p hp => ?_, fun done p hp other hother => ?_⟩
  · rcases files p hp with same | rendered
    · by_cases own : p = project
      · subst own
        exact .inr ⟨file, hfile, same.trans written.readText⟩
      · exact .inl (same.trans (written.readText_other p hp own))
    · exact .inr rendered
  · rcases List.mem_cons.1 hp with rfl | hp
    · -- it may be saved once more, with the same text
      cases hfile.symm.trans hother
      rcases files p hname with same | ⟨file', hfile', hread⟩
      · exact same.trans written.readText
      · cases hfile.symm.trans hfile'
        exact hread
    · obtain ⟨new, hnew, same⟩ := exists_file?_of_map (map_records_markSaved p).symm hother
      exact same ▸ frame.saved done p hp new hnew

theorem IsReadable.exists_saveProjects (h : f.IsReadable d) (names : List String) :
    ∃ e f' d', f.saveProjects d names = (e.map Error.file, f', d') ∧
      SaveFrame f d names e f' d' := by
  induction names generalizing f d with
  | nil =>
    exact ⟨none, f, d, rfl, rfl, fun _ => rfl, fun _ _ => .inl rfl,
      fun _ p hp => absurd hp List.not_mem_nil⟩
  | cons project rest ih =>
    unfold saveProjects
    cases hfile : f.file? project with
    | none =>
      obtain ⟨e, f', d', hsave, frame⟩ := ih h
      refine ⟨e, f', d', hsave, frame.directory, frame.records, frame.files, ?_⟩
      intro done p hp file hkept
      rcases List.mem_cons.1 hp with rfl | hp
      · rw [hfile] at hkept
        cases hkept
      · exact frame.saved done p hp file hkept
    | some file =>
      obtain ⟨-, own⟩ := mem_of_file? hfile
      obtain ⟨named, content, hread⟩ := h project file hfile
      dsimp only
      cases hwrite : f.writeFile d file with
      | mk failure d₁ =>
        subst own
        cases failure with
        | some fault =>
          refine ⟨some fault, f, d₁, rfl, rfl, fun _ => rfl, fun p hp => .inl ?_,
            fun done => absurd done (Option.some_ne_none fault)⟩
          exact readText_of_fault named hread hwrite hp
        | none =>
          have written := written_of_writeFile named hread hwrite
          obtain ⟨e, f', d', hsave, frame⟩ := ih (h.markSaved written)
          exact ⟨e, f', d', hsave, frame.of_written hfile written named⟩

theorem IsDirty.mem_dirtyProjects (h : f.IsDirty project) : project ∈ f.dirtyProjects := by
  obtain ⟨file, hfile, dirty⟩ := h
  obtain ⟨hmem, rfl⟩ := mem_of_file? hfile
  exact Sorted.mem_sort.2 (List.mem_map_of_mem (List.mem_filter.2 ⟨hmem, dirty⟩))

/-- The file of a project could be read before and can be read now, and it has been rewritten. -/
def RewritesFile (directory p : String) (d d' : Disk) : Prop :=
  ∃ old new, d.readText (Path.join directory (fileName p)) = .ok old ∧
    d'.readText (Path.join directory (fileName p)) = .ok new ∧ RecordFile.IsRewritten old new

theorem InStep.rewritesFile (h : f.InStep d) (hfile : f.file? p = some file)
    (hread : d'.readText (f.filePath p) = .ok (RecordFile.render file.records)) :
    RewritesFile f.directory p d d' := by
  obtain ⟨-, content, hold, same⟩ := h p file hfile
  exact ⟨content, _, hold, hread, RecordFile.isRewritten_render same⟩

/-- After a save, the files are in step with what is kept, also when not all could be written. -/
theorem InStep.saved {names : List String} {e : Option FileFault} (h : f.InStep d)
    (orders : f.HasOrders) (frame : SaveFrame f d names e f' d') :
    f'.InStep d' ∧ f'.HasOrders := by
  constructor
  · intro p new hnew
    obtain ⟨old, hold, same⟩ := exists_file?_of_map (frame.records p) hnew
    obtain ⟨named, content, hread, place⟩ := h p old hold
    rw [filePath, frame.directory, ← filePath, ← same]
    refine ⟨named, ?_⟩
    rcases frame.files p named with unchanged | ⟨file, hfile, hread'⟩
    · exact ⟨content, unchanged.trans hread, place⟩
    · obtain rfl := Option.some.inj (hold.symm.trans hfile)
      refine ⟨_, hread', ?_⟩
      rw [RecordFile.records_render (orders p old hold)]
      exact forall₂_sameButPlace_refl _
  · intro p new hnew
    obtain ⟨old, hold, same⟩ := exists_file?_of_map (frame.records p) hnew
    exact same ▸ orders p old hold

end RecordFolder

/-! ## Calls -/

namespace RecordStore

variable {f : RecordFolder} {c : Call} {calls : List Call}

/-- Each call keeps a store in step with its files. -/
theorem inStep_answer (h : f.InStep d) (orders : f.HasOrders) (within : c.IsWithin Set.univ) :
    ∃ a f' d', (folder f).answer d c = (a, folder f', d') ∧ f'.InStep d' ∧ f'.HasOrders := by
  cases c with
  | list project kind =>
    rw [answer_list_folder]
    cases hload : f.load d 1 project with
    | error e => exact ⟨_, f, d, rfl, h, orders⟩
    | ok f' => exact ⟨_, f', d, rfl, (h.load hload).1, orders.load hload⟩
  | writeOrder project kind name order layer =>
    obtain ⟨-, low, high⟩ := within
    obtain ⟨e, f', hwrite, outcome⟩ := h.exists_writeOrder project kind name order layer
    have kept := outcome.orders orders low high
    unfold answer
    dsimp only
    rw [hwrite]
    cases e with
    | none => exact ⟨_, f', d, rfl, outcome.inStep, kept⟩
    | some e => exact ⟨_, f', d, rfl, outcome.inStep, kept⟩
  | save =>
    obtain ⟨e, f', d', hsave, frame⟩ := h.isReadable.exists_saveProjects f.dirtyProjects
    have kept := h.saved orders frame
    unfold answer RecordStore.save RecordFolder.save
    dsimp only
    rw [hsave]
    cases e with
    | none => exact ⟨_, f', d', rfl, kept⟩
    | some fault => exact ⟨_, f', d', rfl, kept⟩
  | reopen => exact ⟨.done, _, d, rfl, RecordFolder.inStep_fresh f.directory d, nofun⟩

/-- So does a run of calls, whichever of them fail. -/
theorem inStep_run (h : f.InStep d) (orders : f.HasOrders)
    (within : ∀ c ∈ calls, c.IsWithin Set.univ) :
    ∃ f', (run d (folder f) calls).store = folder f' ∧ f'.InStep (run d (folder f) calls).disk ∧
      f'.HasOrders := by
  induction calls generalizing f d with
  | nil => exact ⟨f, rfl, h, orders⟩
  | cons c calls ih =>
    obtain ⟨hc, within⟩ := List.forall_mem_cons.1 within
    obtain ⟨a, f', d', hanswer, h', orders'⟩ := inStep_answer h orders hc
    rw [run, hanswer]
    exact ih h' orders' within

end RecordStore

/-! ## Builds -/

namespace WriteBack

variable {f f' : RecordFolder} {p : Progress} {a : Assignment} {as : List Assignment}

/-- What comes of writing assignments onto a project. -/
structure Outcome (f : RecordFolder) (d : Disk) (project : String) (as : List Assignment)
    (p : Progress) (f' : RecordFolder) : Prop where
  store : p.store = .folder f'
  directory : f'.directory = f.directory
  inStep : f'.InStep d
  changed : p.written ≠ 0 ∨ f.IsDirty project → f'.IsDirty project
  orders : f.HasOrders → (∀ a ∈ as, -2 ^ 63 ≤ a.order ∧ a.order < 2 ^ 63) → f'.HasOrders

theorem exists_outcome_write (h : f.InStep d) (hp : p.store = .folder f)
    (changed : p.written ≠ 0 → f.IsDirty project) (a : Assignment) :
    ∃ f', Outcome f d project [a] (p.write d project a) f' := by
  unfold Progress.write
  cases EntityKind.ofNodeType? a.key.type with
  | none => exact ⟨f, hp, rfl, h, fun or => or.elim changed id, fun orders _ => orders⟩
  | some kind =>
    obtain ⟨e, f', hwrite, outcome⟩ := h.exists_writeOrder project kind a.key.name a.order a.layer
    dsimp only
    rw [hp, hwrite]
    have orders (old : f.HasOrders) (range : ∀ b ∈ [a], -2 ^ 63 ≤ b.order ∧ b.order < 2 ^ 63) :
        f'.HasOrders :=
      outcome.orders old (range a List.mem_cons_self).1 (range a List.mem_cons_self).2
    cases e with
    | none =>
      exact ⟨f', rfl, outcome.directory, outcome.inStep, fun _ => outcome.changed (.inl rfl),
        orders⟩
    | some e =>
      exact ⟨f', rfl, outcome.directory, outcome.inStep,
        fun or => outcome.changed (.inr (or.elim changed id)), orders⟩

theorem exists_outcome (h : f.InStep d) (hp : p.store = .folder f)
    (changed : p.written ≠ 0 → f.IsDirty project) (as : List Assignment) :
    ∃ f', Outcome f d project as (as.foldl (Progress.write d project) p) f' := by
  induction as generalizing f p with
  | nil => exact ⟨f, hp, rfl, h, fun or => or.elim changed id, fun orders _ => orders⟩
  | cons a rest ih =>
    obtain ⟨f₁, first⟩ := exists_outcome_write h hp changed a
    obtain ⟨f', others⟩ := ih first.inStep first.store fun landed => first.changed (.inl landed)
    refine ⟨f', others.store, others.directory.trans first.directory, others.inStep,
      fun or => others.changed (or.imp_right fun dirty => first.changed (.inr dirty)),
      fun orders range => ?_⟩
    obtain ⟨ha, hrest⟩ := List.forall_mem_cons.1 range
    exact others.orders (first.orders orders (List.forall_mem_singleton.2 ha)) hrest

end WriteBack

namespace Workspace

variable {w w' : Workspace} {f f₁ : RecordFolder} {n : Nat} {report : BuildReport}
  {copy : Option (SyncLimits × String)}

/-- A build orders the graph of the records that are kept after it has read. -/
theorem exists_buildGraph_folder (hw : w.records = .folder f)
    (hload : f.load w.disk (RecordStore.overlappingReads n) project = .ok f₁) : ∃ ordered,
    w.buildGraph n project = (.ok ordered, { w with records := .folder f₁ }) ∧
      ordered.graph = (Build.ofRecords (byKind (f₁.records project))).graph.ordered := by
  unfold buildGraph RecordStore.buildGraph
  rw [hw, readProject_of_load hload]
  exact ⟨_, rfl, rfl⟩

theorem buildGraph_folder_of_error {e : Error} (hw : w.records = .folder f)
    (hload : f.load w.disk (RecordStore.overlappingReads n) project = .error e) :
    (w.buildGraph n project).1 = .error e := by
  have failed : (RecordStore.folder f).load w.disk (RecordStore.overlappingReads n) project =
      .error e := by
    rw [RecordStore.load, hload]
    rfl
  unfold buildGraph RecordStore.buildGraph RecordStore.readProject RecordStore.readBy
  rw [hw, failed]
  rfl

/-- What a build does to a store over a folder that is in step with its files: the project is read,
its assignments are written, and what has changed is saved. -/
structure Stages (w w' : Workspace) (n : Nat) (project : String) (f f₁ f₂ f₃ : RecordFolder)
    (e : Option FileFault) (d' : Disk) (back : WriteBackReport) : Prop where
  loaded : f.load w.disk (RecordStore.overlappingReads n) project = .ok f₁
  written : ∃ p, WriteBack.Outcome f₁ w.disk project (assignmentsOf (f₁.records project)) p f₂ ∧
    back.written = p.written
  saved : RecordFolder.SaveFrame f₂ w.disk f₂.dirtyProjects e f₃ d'
  saveError : back.saveError = e.map fun fault => (Error.file fault).message
  disk : (w.build n project false none).2.disk = d'
  records : w'.records = .folder f₃

/-- A build that succeeds goes through these stages, whether or not the graph is copied after it. -/
theorem exists_stages (hw : w.records = .folder f) (inStep : f.InStep w.disk)
    (hbuild : w.build n project false copy = (.ok report, w')) :
    ∃ f₁ f₂ f₃ e d', Stages w w' n project f f₁ f₂ f₃ e d' report.writeBack := by
  cases hload : f.load w.disk (RecordStore.overlappingReads n) project with
  | error e =>
    have failed := buildGraph_folder_of_error hw hload
    unfold build at hbuild
    generalize w.buildGraph n project = result at failed hbuild
    obtain ⟨result, w₁⟩ := result
    subst failed
    cases hbuild
  | ok f₁ =>
    obtain ⟨ordered, hgraph, hordered⟩ := exists_buildGraph_folder hw hload
    have hassignments : ordered.graph.assignments = assignmentsOf (f₁.records project) :=
      congrArg Graph.assignments hordered
    obtain ⟨inStep₁, -⟩ := inStep.load hload
    obtain ⟨f₂, written⟩ := WriteBack.exists_outcome inStep₁
      (p := { store := .folder f₁ }) rfl (absurd rfl) (assignmentsOf (f₁.records project))
    obtain ⟨e, f₃, d', hsave, frame⟩ :=
      written.inStep.isReadable.exists_saveProjects f₂.dirtyProjects
    have saved : RecordStore.save w.disk (.folder f₂) = (e.map .file, .folder f₃, d') := by
      unfold RecordStore.save RecordFolder.save
      dsimp only
      rw [hsave]
    rw [← hassignments] at written
    obtain ⟨back, hrun, -, hwritten, -, hsaveError⟩ :=
      WriteBack.exists_run (g := ordered.graph) rfl (written.store ▸ saved)
    have hback : Workspace.writeBack { w with records := .folder f₁ } project ordered.graph false =
        (back, { w with records := .folder f₃, disk := d' }) := by
      rw [writeBack, hrun]
    obtain ⟨sync, w₂, hbuild', hrecords⟩ := exists_build hgraph copy
    rw [hback] at hbuild' hrecords
    cases hbuild.symm.trans hbuild'
    refine ⟨f₁, f₂, f₃, e, d', hload, ⟨_, hassignments ▸ written, hwritten⟩, frame, ?_, ?_,
      hrecords⟩
    · rw [hsaveError, Option.map_map]
      rfl
    · unfold build
      rw [hgraph]
      dsimp only [finish]
      rw [hback]

/-- A build over a store that is in step with its files leaves each file as it was or rewrites it:
of the old lines those stay that hold a record, as the lines of these records, and only orders and
layers change. When saving does not fail, the file of the project is rewritten if there was anything
to save. The disk is the one right after that, before the graph is copied. -/
theorem build_rewrites (hw : w.records = .folder f) (inStep : f.InStep w.disk)
    (hbuild : w.build n project false copy = (.ok report, w')) :
    (∀ p, isProjectName p = true →
      (w.build n project false none).2.disk.readText (f.filePath p) =
          w.disk.readText (f.filePath p) ∨
        RecordFolder.RewritesFile f.directory p w.disk (w.build n project false none).2.disk) ∧
    (report.writeBack.saveError = none →
      report.writeBack.written ≠ 0 ∨ f.IsDirty project →
      RecordFolder.RewritesFile f.directory project w.disk
        (w.build n project false none).2.disk) := by
  obtain ⟨f₁, f₂, f₃, e, d', stages⟩ := exists_stages hw inStep hbuild
  obtain ⟨p, written, hwritten⟩ := stages.written
  obtain ⟨inStep₁, directory, -⟩ := inStep.load stages.loaded
  have place : f₂.directory = f.directory := written.directory.trans directory
  have rewrites {p : String} {file : ProjectFile} (hfile : f₂.file? p = some file)
      (hread : d'.readText (f₂.filePath p) = .ok (RecordFile.render file.records)) :=
    written.inStep.rewritesFile hfile hread
  rw [stages.disk]
  rw [place] at rewrites
  constructor
  · intro p hp
    have files := stages.saved.files p hp
    rw [RecordFolder.filePath, place, ← RecordFolder.filePath] at files
    refine files.imp_right ?_
    rintro ⟨file, hfile, hread⟩
    refine rewrites hfile ?_
    rwa [RecordFolder.filePath, place]
  · intro saves changed
    have done : e = none := by
      rw [stages.saveError] at saves
      exact Option.map_eq_none_iff.1 saves
    have dirty : f₂.IsDirty project := by
      refine written.changed (changed.imp (fun landed => hwritten ▸ landed) fun dirty => ?_)
      rwa [dirty.load stages.loaded]
    have listed := dirty.mem_dirtyProjects
    obtain ⟨file, hfile, -⟩ := dirty
    exact rewrites hfile (stages.saved.saved done project listed file hfile)

theorem sum_size_of_sameButPlace {rs rs' : List EntityRecord}
    (h : List.Forall₂ EntityRecord.SameButPlace rs rs') :
    (rs'.map EntityRecord.size).sum = (rs.map EntityRecord.size).sum := by
  induction h with
  | nil => rfl
  | cons first _ ih =>
    rw [List.map_cons, List.map_cons, List.sum_cons, List.sum_cons, ih, first.size_eq]

/-- A build keeps a store in step with its files, so that what it leaves can be built again. The
text of the project's file is one that fits in memory. -/
theorem inStep_build (hw : w.records = .folder f) (inStep : f.InStep w.disk) (orders : f.HasOrders)
    (hbuild : w.build n project false copy = (.ok report, w'))
    (short : ∀ content, w.disk.readText (f.filePath project) = .ok content →
      content.length < 2 ^ 63) :
    ∃ f', w'.records = .folder f' ∧ f'.InStep (w.build n project false none).2.disk ∧
      f'.HasOrders := by
  obtain ⟨f₁, f₂, f₃, e, d', stages⟩ := exists_stages hw inStep hbuild
  obtain ⟨p, written, -⟩ := stages.written
  obtain ⟨inStep₁, directory, file, hfile⟩ := inStep.load stages.loaded
  have range : ∀ a ∈ assignmentsOf (f₁.records project), -2 ^ 63 ≤ a.order ∧ a.order < 2 ^ 63 := by
    intro a ha
    obtain ⟨low, high⟩ := order_lt_size ha
    obtain ⟨-, content, hread, same⟩ := inStep₁ project file hfile
    rw [RecordFolder.filePath, directory] at hread
    have fits := short content hread
    have sizes := RecordFile.size_le content.toList
    rw [← sum_size_of_sameButPlace same, String.length_toList] at sizes
    rw [RecordFolder.records_of_file? hfile] at high
    omega
  obtain ⟨kept, orders'⟩ :=
    written.inStep.saved (written.orders (orders.load stages.loaded) range) stages.saved
  exact ⟨f₃, stages.records, stages.disk ▸ kept, orders'⟩

/-- A file with a record that has a member of its own, and a line that is no record. -/
def noteText : String :=
  "\x7b\"kind\":\"table\",\"name\":\"T\",\"note\":1\x7d\nnot json\n"

/-- A file with two records. -/
def pairText : String :=
  "\x7b\"kind\":\"table\",\"name\":\"T\"\x7d\n\x7b\"kind\":\"table\",\"name\":\"U\"\x7d\n"

/-- What a build makes of a project with the table `T`. -/
def placedText : String :=
  "\x7b\"kind\":\"table\",\"name\":\"T\",\"topological_order\":0,\"layer\":\"SCHEMA\"\x7d\n"

/-- A disk with a folder that holds one file. -/
def folderDisk (text : String) : Disk where
  entries := [([Text.octets "records"], .directory),
    ([Text.octets "records", Text.octets "demo.jsonl"], .file text.toUTF8)]

/-- A workspace with the first file and a fresh store. -/
def noteWorkspace : Workspace where
  disk := folderDisk noteText
  records := .folder { directory := "records" }
  graphStore := { place := .nowhere }

/-- A workspace with the second file, which has been given its second record after the store read
it. -/
def staleWorkspace : Workspace where
  disk := folderDisk pairText
  records := .folder (keeping "records" [] "demo" [{ kind := .table, name := "T" }] false)
  graphStore := { place := .nowhere }

theorem readText_noteWorkspace :
    noteWorkspace.disk.readText (Path.join "records" (RecordFolder.fileName "demo")) =
      .ok noteText :=
  Disk.readText_of_readBytes rfl

theorem readText_staleWorkspace :
    staleWorkspace.disk.readText (Path.join "records" (RecordFolder.fileName "demo")) =
      .ok pairText :=
  Disk.readText_of_readBytes rfl

/-- What comes of a build that has read the table `T`, if its project can be saved. -/
theorem placed_of_outcome {report : WriteBackReport}
    (outcome : FolderOutcome "records" "demo" [{ kind := .table, name := "T" }] d report d')
    (can : RecordFolder.CanSave { directory := "records" } d "demo") :
    report.saveError = none ∧ report.written = 1 ∧
      d'.readText (Path.join "records" (RecordFolder.fileName "demo")) = .ok placedText := by
  have assigned : assignmentsOf [{ kind := .table, name := "T" }] =
      [⟨⟨.table, "T"⟩, 0, some .schema⟩] := by
    cbv
  have changed : assignmentsOf [{ kind := .table, name := "T" }] ≠ [] := by
    rw [assigned]
    exact List.cons_ne_nil _ _
  obtain ⟨saves, bytes, -⟩ := (outcome.rewritten changed).saved can
  refine ⟨saves, ?_, Disk.readText_of_readBytes (bytes.trans ?_)⟩
  · rw [outcome.written, assigned]
    rfl
  · have text : RecordFile.render ([({ kind := .table, name := "T" } : EntityRecord)].map
        (·.carryAll [⟨⟨.table, "T"⟩, 0, some .schema⟩])) = placedText := by
      cbv
    rw [assigned]
    exact congrArg (fun s => Except.ok s.toUTF8) text

theorem canSave_folderDisk (text : String) :
    RecordFolder.CanSave { directory := "records" } (folderDisk text) "demo" :=
  ⟨[Text.octets "records", Text.octets "demo.jsonl.tmp"],
    [Text.octets "records", Text.octets "demo.jsonl"], rfl, rfl, List.not_mem_nil, rfl,
    List.not_mem_nil⟩

theorem exists_build_noteWorkspace : ∃ report w',
    noteWorkspace.build 1 "demo" false none = (.ok report, w') ∧
    report.writeBack.saveError = none ∧ report.writeBack.written = 1 ∧
    w'.disk.readText (Path.join "records" (RecordFolder.fileName "demo")) = .ok placedText := by
  have table : RecordFile.records noteText.toList = [{ kind := .table, name := "T" }] := by rfl
  obtain ⟨report, w', hbuild, -, outcome, -⟩ :=
    exists_build_folder (w := noteWorkspace) rfl rfl readText_noteWorkspace table 1 none (.inl rfl)
  exact ⟨report, w', hbuild, placed_of_outcome outcome (canSave_folderDisk noteText)⟩

/-- A build does not read a project again that is kept. -/
theorem exists_build_staleWorkspace : ∃ report w',
    staleWorkspace.build 1 "demo" false none = (.ok report, w') ∧
    report.writeBack.saveError = none ∧ report.writeBack.written = 1 ∧
    w'.disk.readText (Path.join "records" (RecordFolder.fileName "demo")) = .ok placedText := by
  obtain ⟨back, store, d', hrun, outcome⟩ := exists_folderOutcome []
    [{ kind := .table, name := "T" }] (by rfl) readText_staleWorkspace
  have placed := placed_of_outcome outcome (canSave_folderDisk pairText)
  obtain ⟨ordered, hgraph, hordered⟩ := exists_buildGraph_folder (w := staleWorkspace) rfl
    (load_keeping (RecordStore.overlappingReads 1))
  rw [records_keeping] at hordered
  have hbuild : staleWorkspace.build 1 "demo" false none =
      (.ok { project := "demo", ordered, writeBack := back, sync := none },
        { staleWorkspace with records := store, disk := d' }) := by
    unfold build finish writeBack
    rw [hgraph]
    dsimp only
    rw [hordered, hrun]
  exact ⟨_, _, hbuild, placed⟩

/-- The record is left, with its place; its other member and the other line are gone. -/
theorem build_rewrites_noteWorkspace : ∃ report w',
    noteWorkspace.build 1 "demo" false none = (.ok report, w') ∧
    report.writeBack.saveError = none ∧ report.writeBack.written = 1 ∧
    RecordFolder.RewritesFile "records" "demo" noteWorkspace.disk w'.disk := by
  obtain ⟨report, w', hbuild, saves, hwritten, -⟩ := exists_build_noteWorkspace
  have rewritten := (build_rewrites rfl (RecordFolder.inStep_fresh "records" _) hbuild).2 saves
    (.inl (by rw [hwritten]; decide))
  rw [hbuild] at rewritten
  exact ⟨report, w', hbuild, saves, hwritten, rewritten⟩

/-- The builds succeed and save the file. From the first one the line that is no record is gone, and
so is the member that records do not know. From the second one the record is gone that the file had
been given after the store read it. -/
theorem build_drops_lines :
    (∃ report w' new, noteWorkspace.build 1 "demo" false none = (.ok report, w') ∧
      report.writeBack.saveError = none ∧ report.writeBack.written = 1 ∧
      noteWorkspace.disk.readText (Path.join "records" (RecordFolder.fileName "demo")) =
        .ok noteText ∧
      w'.disk.readText (Path.join "records" (RecordFolder.fileName "demo")) = .ok new ∧
      "not json".toList ∈ Text.lines noteText.toList ∧
      RecordFile.lineRecord? "not json".toList = none ∧
      "not json".toList ∉ Text.lines new.toList ∧
      "\"note\":1".toList <:+: noteText.toList ∧ ¬ "\"note\":1".toList <:+: new.toList) ∧
    ∃ report w' new, staleWorkspace.build 1 "demo" false none = (.ok report, w') ∧
      report.writeBack.saveError = none ∧ report.writeBack.written = 1 ∧
      staleWorkspace.disk.readText (Path.join "records" (RecordFolder.fileName "demo")) =
        .ok pairText ∧
      w'.disk.readText (Path.join "records" (RecordFolder.fileName "demo")) = .ok new ∧
      (RecordFile.records pairText.toList).map EntityRecord.name = ["T", "U"] ∧
      (RecordFile.records new.toList).map EntityRecord.name = ["T"] := by
  constructor
  · obtain ⟨report, w', hbuild, saves, hwritten, hnew⟩ := exists_build_noteWorkspace
    exact ⟨report, w', placedText, hbuild, saves, hwritten, readText_noteWorkspace, hnew,
      by decide, by rfl, by decide, by decide +kernel, by decide +kernel⟩
  · obtain ⟨report, w', hbuild, saves, hwritten, hnew⟩ := exists_build_staleWorkspace
    exact ⟨report, w', placedText, hbuild, saves, hwritten, readText_staleWorkspace, hnew, by rfl,
      by rfl⟩

end Workspace

end LayerGraph
