import LayerGraph.Pipeline
import Mathlib

/-!
# Stores with the same records

Stores that have the same records and the same files are written alike and saved alike, whatever
warnings they have met.

Main statement: `RecordStore.SameRecords.writeBack`.
-/

namespace LayerGraph

namespace RecordStore

/-- Two stores have the same records and the same files. -/
inductive SameRecords : RecordStore → RecordStore → Prop
  | memory (m : RefusingStore) : SameRecords (memory m) (memory m)
  | folder {f f' : RecordFolder} : f'.directory = f.directory → f'.files = f.files →
      SameRecords (folder f) (folder f')

namespace SameRecords

variable {s s' : RecordStore} {f f' : RecordFolder}

theorem refl (s : RecordStore) : SameRecords s s := by
  cases s with
  | memory m => exact .memory m
  | folder f => exact .folder rfl rfl

theorem load (h : SameRecords (.folder f) (.folder f')) (d : Disk) (project : String) :
    (∃ e, f.load d 1 project = .error e ∧ f'.load d 1 project = .error e) ∨
      ∃ g g', f.load d 1 project = .ok g ∧ f'.load d 1 project = .ok g' ∧
        SameRecords (.folder g) (.folder g') := by
  obtain ⟨directory, files, warnings⟩ := f
  obtain ⟨directory', files', warnings'⟩ := f'
  cases h with
  | folder place kept =>
    cases place
    cases kept
    unfold RecordFolder.load RecordFolder.projectPath RecordFolder.file?
    dsimp only
    split
    · exact .inr ⟨_, _, rfl, rfl, .folder rfl rfl⟩
    split
    · simp only [bind, Except.bind]
      split
      · exact .inl ⟨_, rfl, rfl⟩
      · exact .inl ⟨_, rfl, rfl⟩
      · exact .inr ⟨_, _, rfl, rfl, .folder rfl rfl⟩
    · exact .inl ⟨_, rfl, rfl⟩

theorem updateFile (h : SameRecords (.folder f) (.folder f')) (project : String)
    (change : ProjectFile → ProjectFile) :
    SameRecords (.folder (f.updateFile project change)) (.folder (f'.updateFile project change)) := by
  cases h with
  | folder place kept => exact .folder place (congrArg (List.map _) kept)

theorem file? (h : SameRecords (.folder f) (.folder f')) (project : String) :
    f'.file? project = f.file? project := by
  cases h with
  | folder _ kept => exact congrArg (List.find? _) kept

theorem writeOrder (h : SameRecords s s') (d : Disk) (project : String) (kind : EntityKind)
    (name : String) (order : Int) (layer : Option Layer) :
    (s'.writeOrder d project kind name order layer).1 =
        (s.writeOrder d project kind name order layer).1 ∧
      SameRecords (s.writeOrder d project kind name order layer).2
        (s'.writeOrder d project kind name order layer).2 := by
  cases s with
  | memory m =>
    cases h
    exact ⟨rfl, refl _⟩
  | folder f =>
    cases s' with
    | memory m => cases h
    | folder f' =>
      unfold RecordStore.writeOrder RecordStore.load
      dsimp only
      rcases h.load d project with ⟨e, hload, hload'⟩ | ⟨g, g', hload, hload', same⟩
      · rw [hload, hload']
        exact ⟨rfl, h⟩
      · rw [hload, hload']
        have records : g'.records project = g.records project := by
          unfold RecordFolder.records
          rw [same.file? project]
        dsimp only [Except.map]
        unfold RecordFolder.writeOrder
        rw [records]
        cases writeOrderOnto (g.records project) kind name order layer with
        | none => exact ⟨rfl, same⟩
        | some rs => exact ⟨rfl, same.updateFile _ _⟩

theorem writeFile (h : SameRecords (.folder f) (.folder f')) (d : Disk) (file : ProjectFile) :
    f'.writeFile d file = f.writeFile d file := by
  cases h with
  | folder place _ =>
    unfold RecordFolder.writeFile
    rw [place]

theorem saveProjects (h : SameRecords (.folder f) (.folder f')) (d : Disk) (names : List String) :
    (f'.saveProjects d names).1 = (f.saveProjects d names).1 ∧
      SameRecords (.folder (f.saveProjects d names).2.1)
        (.folder (f'.saveProjects d names).2.1) ∧
      (f'.saveProjects d names).2.2 = (f.saveProjects d names).2.2 := by
  induction names generalizing f f' d with
  | nil => exact ⟨rfl, h, rfl⟩
  | cons name rest ih =>
    unfold RecordFolder.saveProjects
    rw [h.file? name]
    cases f.file? name with
    | none => exact ih h d
    | some file =>
      dsimp only
      rw [h.writeFile d file]
      rcases f.writeFile d file with ⟨_ | fault, d'⟩
      · exact ih (h.updateFile _ _) d'
      · exact ⟨rfl, h, rfl⟩

theorem save (h : SameRecords s s') (d : Disk) : (s'.save d).1 = (s.save d).1 ∧
    SameRecords (s.save d).2.1 (s'.save d).2.1 ∧ (s'.save d).2.2 = (s.save d).2.2 := by
  cases s with
  | memory m =>
    cases h
    exact ⟨rfl, refl _, rfl⟩
  | folder f =>
    cases s' with
    | memory m => cases h
    | folder f' =>
      have dirty : f'.dirtyProjects = f.dirtyProjects := by
        cases h with
        | folder _ kept =>
          unfold RecordFolder.dirtyProjects
          rw [kept]
      unfold RecordStore.save RecordFolder.save
      dsimp only
      rw [dirty]
      exact h.saveProjects d f.dirtyProjects

/-- Writes that are under way alike stay so. -/
theorem foldl_write (as : List Assignment) (h : SameRecords s s') (d : Disk) (project : String)
    (written : Nat) (skipped : List BuildWarning) :
    ∃ t t' written' skipped', SameRecords t t' ∧
      as.foldl (WriteBack.Progress.write d project) ⟨s, written, skipped⟩ =
        ⟨t, written', skipped'⟩ ∧
      as.foldl (WriteBack.Progress.write d project) ⟨s', written, skipped⟩ =
        ⟨t', written', skipped'⟩ := by
  induction as generalizing s s' written skipped with
  | nil => exact ⟨s, s', written, skipped, h, rfl, rfl⟩
  | cons a rest ih =>
    rw [List.foldl_cons, List.foldl_cons]
    unfold WriteBack.Progress.write
    cases EntityKind.ofNodeType? a.key.type with
    | none => exact ih h written skipped
    | some kind =>
      obtain ⟨failure, same⟩ := h.writeOrder d project kind a.key.name a.order a.layer
      dsimp only
      revert failure same
      rcases s.writeOrder d project kind a.key.name a.order a.layer with ⟨_ | e, t⟩ <;>
        rcases s'.writeOrder d project kind a.key.name a.order a.layer with ⟨e', t'⟩ <;>
        rintro ⟨⟩ same
      · exact ih same (written + 1) skipped
      · exact ih same written _

/-- What is written back depends on the records and their files only. -/
theorem writeBack (h : SameRecords s s') (d : Disk) (project : String) (g : Graph)
    (dryRun : Bool) :
    (WriteBack.run d project g dryRun s').1 = (WriteBack.run d project g dryRun s).1 ∧
      SameRecords (WriteBack.run d project g dryRun s).2.1 (WriteBack.run d project g dryRun s').2.1 ∧
      (WriteBack.run d project g dryRun s').2.2 = (WriteBack.run d project g dryRun s).2.2 := by
  cases dryRun with
  | true => exact ⟨rfl, h, rfl⟩
  | false =>
    obtain ⟨t, t', written, skipped, same, run, run'⟩ := h.foldl_write g.assignments d project 0 []
    obtain ⟨failures, saved, disks⟩ := same.save d
    unfold WriteBack.run
    dsimp only
    rw [if_neg Bool.false_ne_true, run, run']
    dsimp only
    rw [failures, disks]
    exact ⟨rfl, saved, rfl⟩

end SameRecords

end RecordStore

end LayerGraph
