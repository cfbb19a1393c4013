import LayerGraph.Proofs.FolderMemory

/-!
# Runs of a store over a folder

Whoever calls a store over a folder does not notice that it reads projects late and writes them
later. Unless a file cannot be read or written, it answers a run of calls as a store does that has
the records of all files from the start. Each call preserves what the two stores have in common
(`StandsFor.answer`), so a run does (`StandsFor.run`).

Main statement: `RecordStore.run_folder_eq_run_memory`.
-/

namespace LayerGraph

namespace RecordFolder

open RecordStore (Call)

variable {directory : String} {projects : Set String} {f : RecordFolder} {d : Disk}
  {m : MemoryStore} {c : Call}

theorem StandsFor.answer (h : StandsFor directory projects f d m) (within : c.IsWithin projects)
    (clean : c = .reopen → f.IsClean) :
    ∃ a f' d', (RecordStore.folder f).answer d c = (a, .folder f', d') ∧
      Agreement directory projects d m c a f' d' ∧
      (a.isFault = false → c = .save → f'.IsClean) := by
  cases c with
  | list project kind =>
    obtain ⟨a, f', hanswer, agrees⟩ := h.list within
    exact ⟨a, f', d, hanswer, agrees, nofun⟩
  | writeOrder project kind name order layer =>
    obtain ⟨hp, low, high⟩ := within
    obtain ⟨a, f', hanswer, agrees⟩ := h.writeOrder hp low high
    exact ⟨a, f', d, hanswer, agrees, nofun⟩
  | save =>
    obtain ⟨a, f', d', hanswer, agrees, saved⟩ := h.save
    exact ⟨a, f', d', hanswer, agrees, fun done _ => saved done⟩
  | reopen =>
    have fresh := h.reopen (clean rfl)
    obtain rfl := h.place
    exact ⟨.done, _, d, rfl, fresh.agreement rfl fun e => rfl, nofun⟩

/-- The relation goes on along a run in which no file was in the way, and none is if all files can
be read and saved. -/
theorem StandsFor.run {calls : List Call} {last : Call} (h : StandsFor directory projects f d m)
    (within : ∀ c ∈ calls, c.IsWithin projects) (follows : (last :: calls).IsChain Call.Precedes)
    (clean : last = .save → f.IsClean) :
    (IsSound directory projects d → (RecordStore.run d (.folder f) calls).IsSmooth) ∧
      ((RecordStore.run d (.folder f) calls).IsSmooth → ∃ (f' : RecordFolder) (m' : MemoryStore),
        (RecordStore.run d (.folder f) calls).store = .folder f' ∧
        (∀ e, RecordStore.run e (.memory m) calls =
          ⟨(RecordStore.run d (.folder f) calls).answers, .memory m', e⟩) ∧
        StandsFor directory projects f' (RecordStore.run d (.folder f) calls).disk m') := by
  induction calls generalizing f d m last with
  | nil => exact ⟨fun _ => nofun, fun _ => ⟨f, m, rfl, fun _ => rfl, h⟩⟩
  | cons c calls ih =>
    obtain ⟨hprecedes, follows⟩ := List.isChain_cons_cons.1 follows
    obtain ⟨hc, within⟩ := List.forall_mem_cons.1 within
    obtain ⟨a, f', d', hanswer, agrees, saved⟩ := h.answer hc fun again => clean (hprecedes again)
    rw [RecordStore.run, hanswer]
    constructor
    · intro sound
      obtain ⟨fine, sound'⟩ := agrees.sound sound
      obtain ⟨m', -, h'⟩ := agrees.same fine
      exact List.forall_mem_cons.2 ⟨fine, (ih h' within follows (saved fine)).1 sound'⟩
    · intro smooth
      obtain ⟨fine, others⟩ := List.forall_mem_cons.1 smooth
      obtain ⟨m', hm, h'⟩ := agrees.same fine
      obtain ⟨f'', m'', hstore, hmemory, h''⟩ := (ih h' within follows (saved fine)).2 others
      refine ⟨f'', m'', hstore, fun e => ?_, h''⟩
      rw [RecordStore.run, hm e]
      dsimp only
      rw [hmemory e]

end RecordFolder

namespace RecordStore

variable {directory : String} {projects : Set String} {d : Disk} {m : MemoryStore}
  {calls : List Call}

/-- A store over a folder answers calls as a memory does that has the records of the files from the
start, unless a file cannot be read or written, which does not happen to files that can be read and
saved at the start. In every state on the way, what is kept and is not waiting to be saved is what
its file has then. -/
theorem run_folder_eq_run_memory (valid : ∀ p ∈ projects, isProjectName p = true)
    (within : ∀ c ∈ calls, c.IsWithin projects)
    (follows : (Call.save :: calls).IsChain Call.Precedes)
    (starts : ∀ p ∈ projects, m.records? p = RecordFolder.parsed? directory d p)
    (willing : m.IsWilling) :
    (RecordFolder.IsSound directory projects d → (run d (.folder { directory }) calls).IsSmooth) ∧
      ((run d (.folder { directory }) calls).IsSmooth →
        (run d (.folder { directory }) calls).answers = (run d (.memory m) calls).answers ∧
        ∀ before, before <+: calls → ∃ f,
          (run d (.folder { directory }) before).store = .folder f ∧
          ∀ file ∈ f.files, file.dirty = false →
            RecordFolder.parsed? directory (run d (.folder { directory }) before).disk
              file.project = some file.records) := by
  have start := RecordFolder.standsFor_fresh (d := d) valid willing starts
  have clean : RecordFolder.IsClean { directory } := nofun
  refine ⟨(start.run within follows fun _ => clean).1, fun smooth => ⟨?_, ?_⟩⟩
  · obtain ⟨f, m', -, hmemory, -⟩ := (start.run within follows fun _ => clean).2 smooth
    rw [hmemory]
  · rintro before ⟨more, rfl⟩
    have within' : ∀ c ∈ before, c.IsWithin projects := fun c hc =>
      within c (List.mem_append_left _ hc)
    have follows' : (Call.save :: before).IsChain Call.Precedes := follows.left_of_append
    have smooth' : (run d (.folder { directory }) before).IsSmooth := fun a ha =>
      smooth a ((answers_run_append d _ before more).subset ha)
    obtain ⟨f, m', hstore, -, stands⟩ := (start.run within' follows' fun _ => clean).2 smooth'
    exact ⟨f, hstore, fun file hmem => (stands.kept file hmem).clean⟩

/-- A project with two records of one class, and a line that is none. -/
def classText : String :=
  "\x7b\"kind\":\"class\",\"name\":\" A \"\x7d\nA\n\x7b\"kind\":\"class\",\"name\":\"A\"\x7d"

/-- A project with a table. -/
def tableText : String :=
  "\x7b\"kind\":\"table\",\"name\":\"T\"\x7d\n"

/-- A directory with the files of both projects. -/
def twoProjects : Disk where
  entries := [([Text.octets "data"], .directory),
    ([Text.octets "data", Text.octets "a.jsonl"], .file classText.toUTF8),
    ([Text.octets "data", Text.octets "b.jsonl"], .file tableText.toUTF8)]

/-- The memory that has the records of both files. -/
def twoProjectsMemory : MemoryStore where
  projects := [("a", [{ kind := .classDef, name := " A " }, { kind := .classDef, name := "A" }]),
    ("b", [{ kind := .table, name := "T" }])]

/-- One project is written and saved, and read again. Another one is read for a record that it does
not have, and a third one is not there. -/
def mixedCalls : List Call :=
  [.list "a" .classDef, .writeOrder "a" .classDef "A" 4 (some .domain),
    .writeOrder "b" .page "A" 1 none, .list "c" .page, .save, .reopen, .list "a" .classDef,
    .writeOrder "b" .table "T" 0 none, .list "b" .table]

theorem parsed?_twoProjects : ∀ p ∈ ({"a", "b", "c"} : Set String),
    twoProjectsMemory.records? p = RecordFolder.parsed? "data" twoProjects p := by
  rintro p (rfl | rfl | rfl)
  · have hread : twoProjects.readText (Path.join "data" (RecordFolder.fileName "a")) =
        .ok classText := Disk.readText_of_readBytes rfl
    rw [RecordFolder.parsed?, hread]
    rfl
  · have hread : twoProjects.readText (Path.join "data" (RecordFolder.fileName "b")) =
        .ok tableText := Disk.readText_of_readBytes rfl
    rw [RecordFolder.parsed?, hread]
    rfl
  · rfl

theorem isSound_twoProjects :
    RecordFolder.IsSound "data" ({"a", "b", "c"} : Set String) twoProjects := by
  rintro p (rfl | rfl | rfl)
  · exact .inr ⟨⟨classText, Disk.readText_of_readBytes rfl⟩,
      [Text.octets "data", Text.octets "a.jsonl.tmp"], [Text.octets "data", Text.octets "a.jsonl"],
      rfl, rfl, by decide, by decide, by decide⟩
  · exact .inr ⟨⟨tableText, Disk.readText_of_readBytes rfl⟩,
      [Text.octets "data", Text.octets "b.jsonl.tmp"], [Text.octets "data", Text.octets "b.jsonl"],
      rfl, rfl, by decide, by decide, by decide⟩
  · exact .inl rfl

/-- Both files can be saved. What was written is read again by the fresh store, on which the other
project is waiting to be saved at the end. -/
theorem run_folder_eq_run_memory_mixedCalls :
    (run twoProjects (.folder { directory := "data" }) mixedCalls).answers =
      [.listed [{ kind := .classDef, name := " A " }, { kind := .classDef, name := "A" }], .done,
        .failed (.refused (.noRecord .page "A")), .failed (.projectNotFound "c"), .done, .done,
        .listed [{ kind := .classDef, name := " A ", order := some 4, layer := some .domain },
          { kind := .classDef, name := "A", order := some 4, layer := some .domain }], .done,
        .listed [{ kind := .table, name := "T", order := some 0 }]] ∧
      ∃ f, (run twoProjects (.folder { directory := "data" }) mixedCalls).store = .folder f ∧
        ∀ file ∈ f.files, file.dirty = false →
          RecordFolder.parsed? "data"
            (run twoProjects (.folder { directory := "data" }) mixedCalls).disk file.project =
              some file.records := by
  have valid : ∀ p ∈ ({"a", "b", "c"} : Set String), isProjectName p = true := by
    rintro p (rfl | rfl | rfl) <;> rfl
  have within : ∀ c ∈ mixedCalls, c.IsWithin {"a", "b", "c"} := by
    simp [mixedCalls, Call.IsWithin]
  have follows : (Call.save :: mixedCalls).IsChain Call.Precedes := by
    simp [mixedCalls, Call.Precedes]
  obtain ⟨smooth, agrees⟩ := run_folder_eq_run_memory valid within follows parsed?_twoProjects
    rfl
  obtain ⟨same, kept⟩ := agrees (smooth isSound_twoProjects)
  exact ⟨same.trans rfl, kept mixedCalls (List.prefix_refl _)⟩

end RecordStore

end LayerGraph
