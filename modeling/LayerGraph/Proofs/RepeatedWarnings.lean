import LayerGraph.Proofs.FolderBuild
import LayerGraph.Proofs.OverlappingReads

/-!
# Warnings that repeat

The calls of a build that list the records of a project report the warnings of its file between one
time and as many times as calls may overlap. Each such number of times is possible: so many calls
find the project absent before any of them reads the file, and then one call after another ends.

Main statements:
1. `Listing.reaches_inTurn`: the calls can come to such states.
2. `Listing.buildGraph_eq_output`: the build of a store is the last of them.
3. `Listing.warnings_repeat`: how often the warnings can be reported.
-/

namespace LayerGraph

namespace Listing

variable {s : Listing} {d : Disk} {n : Nat} {before : RecordFolder}
  {directory project content : String} {kind : EntityKind}

/-! ## Calls that end in turn -/

/-- The place of a kind among all kinds. -/
def position (kind : EntityKind) : Nat := EntityKind.all.idxOf kind

theorem position_lt (kind : EntityKind) : position kind < EntityKind.all.length := by
  cases kind <;> decide

theorem exists_position {i : Nat} (h : i < EntityKind.all.length) :
    ∃ kind, position kind = i :=
  ⟨EntityKind.all.get ⟨i, h⟩, List.Nodup.idxOf_getElem (by decide) i h⟩

theorem position_lt_succ_iff (other kind : EntityKind) :
    position other < position kind + 1 ↔ position other < position kind ∨ other = kind := by
  cases other <;> cases kind <;> decide

theorem take_position_succ (kind : EntityKind) :
    EntityKind.all.take (position kind + 1) = EntityKind.all.take (position kind) ++ [kind] := by
  cases kind <;> rfl

theorem all_eq_take_append (kind : EntityKind) : EntityKind.all =
    EntityKind.all.take (position kind) ++ kind :: EntityKind.all.drop (position kind + 1) := by
  cases kind <;> rfl

theorem position_lt_of_mem_take {earlier kind : EntityKind}
    (h : earlier ∈ EntityKind.all.take (position kind)) : position earlier < position kind := by
  revert h
  cases earlier <;> cases kind <;> decide

/-- One call after another ends: the first `i` calls have found the project absent, and the first
`j` calls have ended. -/
def inTurn (before : RecordFolder) (project content : String) (i j : Nat) : Listing where
  store :=
    if j = 0 then before else grown before project content (min i j)
  stage kind :=
    if position kind < j then .listed else if position kind < i then .absent else .waiting
  batches := (EntityKind.all.take j).map fun kind =>
    (kind, (RecordFile.records content.toList).filter (·.kind = kind))

/-- A call that has found the project absent goes on alone to its end. -/
theorem steps_of_absent (hname : isProjectName project = true)
    (hread : d.readText (Path.join s.store.directory (RecordFolder.fileName project)) = .ok content)
    (absent : s.stage kind = .absent) {store : RecordFolder}
    (hstore : RecordFolder.keepIfAbsent
      { s.store with
        warnings := s.store.warnings ++ RecordFile.warnings project content.toList }
      (file project content) = store) :
    Relation.ReflTransGen (Step d n project) s
      { store, stage := Function.update s.stage kind .listed
        batches := s.batches ++ [(kind, (store.records project).filter (·.kind = kind))] } := by
  subst hstore
  have steps := Relation.ReflTransGen.single (Step.read (n := n) absent (if_pos hname) hread)
    |>.tail (.report (stage_move_self _ _ _)) |>.tail (.keep (stage_move_self _ _ _))
    |>.tail (.list (stage_move_self _ _ _))
  simpa only [move, Function.update_idem, file] using steps

/-- A call that begins when the project is kept goes on alone to its end. -/
theorem steps_of_waiting {before after : List EntityKind}
    (order : EntityKind.all = before ++ kind :: after)
    (begun : ∀ earlier ∈ before, s.stage earlier ≠ .waiting) (waiting : s.stage kind = .waiting)
    (room : s.count Stage.isUnderWay < max n 1) (found : (s.store.file? project).isSome = true) :
    Relation.ReflTransGen (Step d n project) s
      { s with
        stage := Function.update s.stage kind .listed
        batches := s.batches ++ [(kind, (s.store.records project).filter (·.kind = kind))] } := by
  have steps := Relation.ReflTransGen.single (Step.start (d := d) order begun waiting room)
    |>.tail (.find (stage_move_self _ _ _) found) |>.tail (.list (stage_move_self _ _ _))
  simpa only [move, Function.update_idem] using steps

variable {i j : Nat}

theorem stage_inTurn (before : RecordFolder) (project content : String) (i j : Nat)
    (kind : EntityKind) : (inTurn before project content i j).stage kind =
      if position kind < j then .listed else if position kind < i then .absent else .waiting :=
  rfl

theorem count_inTurn (before : RecordFolder) (project content : String)
    (h : i ≤ EntityKind.all.length) :
    (inTurn before project content i 0).count Stage.isUnderWay = i := by
  have four : EntityKind.all.length = 4 := rfl
  rw [four] at h
  interval_cases i <;> rfl

/-- As many calls as may overlap can all find the project absent. -/
theorem reaches_inTurn_zero (missing : before.file? project = none)
    (hi : i ≤ RecordStore.overlappingReads n) :
    ReachesFrom d n before project (inTurn before project content i 0) := by
  induction i with
  | zero => exact .refl
  | succ i ih =>
    have few := le_trans hi (Nat.min_le_left _ _)
    have all := le_trans hi (Nat.min_le_right _ _)
    obtain ⟨kind, rfl⟩ := exists_position (Nat.lt_of_succ_le all)
    have begins : Step d n project (inTurn before project content (position kind) 0)
        ((inTurn before project content (position kind) 0).move kind .begun) := by
      refine .start (all_eq_take_append kind) (fun earlier hmem => ?_) ?_ ?_
      · rw [stage_inTurn, if_neg (Nat.not_lt_zero _), if_pos (position_lt_of_mem_take hmem)]
        decide
      · rw [stage_inTurn, if_neg (Nat.not_lt_zero _), if_neg (Nat.lt_irrefl _)]
      · rw [count_inTurn _ _ _ (position_lt kind).le]
        exact Nat.lt_of_succ_le few
    have misses : Step d n project
        ((inTurn before project content (position kind) 0).move kind .begun)
        (((inTurn before project content (position kind) 0).move kind .begun).move kind
          .absent) :=
      .miss (stage_move_self _ _ _) missing
    have same : ((inTurn before project content (position kind) 0).move kind .begun).move kind
        .absent = inTurn before project content (position kind + 1) 0 := by
      unfold move inTurn
      rw [Function.update_idem]
      congr 1
      funext other
      simp only [Function.update_apply, position_lt_succ_iff]
      by_cases own : other = kind <;> simp [own]
    exact same ▸ ((ih (Nat.le_of_succ_le hi)).tail begins).tail misses

/-- The state after one more call has ended. -/
theorem inTurn_succ (before : RecordFolder) (project content : String) (i : Nat)
    (kind : EntityKind) : inTurn before project content i (position kind + 1) =
      { store := grown before project content (min i (position kind + 1)),
        stage := Function.update (inTurn before project content i (position kind)).stage kind
          .listed,
        batches := (inTurn before project content i (position kind)).batches ++
          [(kind, (RecordFile.records content.toList).filter (·.kind = kind))] } := by
  unfold inTurn
  rw [take_position_succ, List.map_append, if_neg (Nat.succ_ne_zero _)]
  congr 1
  funext other
  simp only [Function.update_apply, position_lt_succ_iff]
  by_cases own : other = kind <;> simp [own]

/-- One more call reports the warnings, and sees to it that the project is kept. -/
theorem keepIfAbsent_inTurn (missing : before.file? project = none) {j : Nat} (more : j < i) :
    RecordFolder.keepIfAbsent
      { (inTurn before project content i j).store with
        warnings := (inTurn before project content i j).store.warnings ++
          RecordFile.warnings project content.toList } (file project content) =
      grown before project content (min i (j + 1)) := by
  have one_more : grown before project content (j + 1) =
      { grown before project content j with
        warnings := (grown before project content j).warnings ++
          RecordFile.warnings project content.toList } := by
    rw [grown, copies_succ, ← List.append_assoc]
    rfl
  rw [Nat.min_eq_right more, inTurn, Nat.min_eq_right more.le]
  dsimp only
  split
  · rename_i first
    subst first
    have absent : ¬ (before.file? project).isSome = true := by
      rw [missing]
      exact Bool.false_ne_true
    rw [RecordFolder.keepIfAbsent, if_neg (by exact absent), grown, copies_succ]
    simp [copies]
  · rw [one_more]
    exact if_pos (congrArg Option.isSome (file?_kept missing content j))

theorem reaches_inTurn_succ (missing : before.file? project = none)
    (hname : isProjectName project = true)
    (hread : d.readText (Path.join before.directory (RecordFolder.fileName project)) = .ok content)
    (hi : 1 ≤ i) (kind : EntityKind)
    (h : ReachesFrom d n before project (inTurn before project content i (position kind))) :
    ReachesFrom d n before project (inTurn before project content i (position kind + 1)) := by
  refine Relation.ReflTransGen.trans h ?_
  have records (j : Nat) : (grown before project content j).records project =
      RecordFile.records content.toList :=
    RecordFolder.records_of_file? (file?_kept missing content j)
  have stage := stage_inTurn before project content i (position kind) kind
  rw [if_neg (Nat.lt_irrefl _)] at stage
  rw [inTurn_succ]
  by_cases early : position kind < i
  · -- the call has found the project absent
    rw [if_pos early] at stage
    have place : (inTurn before project content i (position kind)).store.directory =
        before.directory := by
      unfold inTurn
      dsimp only
      split <;> rfl
    have steps := steps_of_absent (s := inTurn before project content i (position kind))
      (d := d) (n := n) hname (by rw [place, hread]) stage (keepIfAbsent_inTurn missing early)
    rwa [records] at steps
  · -- the call begins after the first one has kept the project
    rw [if_neg early] at stage
    rw [Nat.not_lt] at early
    have store : (inTurn before project content i (position kind)).store =
        grown before project content (min i (position kind + 1)) := by
      unfold inTurn
      dsimp only
      rw [if_neg (Nat.ne_of_gt (Nat.lt_of_lt_of_le hi early)), Nat.min_eq_left early,
        Nat.min_eq_left (Nat.le_succ_of_le early)]
    have room :
        (inTurn before project content i (position kind)).count Stage.isUnderWay = 0 := by
      refine List.countP_eq_zero.2 fun other _ => ?_
      rw [stage_inTurn]
      split
      · decide
      · rename_i later
        rw [if_neg (by omega)]
        decide
    have begun : ∀ earlier ∈ EntityKind.all.take (position kind),
        (inTurn before project content i (position kind)).stage earlier ≠ .waiting := by
      intro earlier hmem
      rw [stage_inTurn, if_pos (position_lt_of_mem_take hmem)]
      decide
    have found : ((inTurn before project content i (position kind)).store.file?
        project).isSome = true := by
      rw [store, file?_kept missing]
      rfl
    have steps := steps_of_waiting (d := d) (n := n) (all_eq_take_append kind) begun stage
      (by omega) found
    rwa [store, records] at steps

/-- The calls can all end after any number of them, up to as many as may overlap, has found the
project absent. -/
theorem reaches_inTurn (missing : before.file? project = none)
    (hname : isProjectName project = true)
    (hread : d.readText (Path.join before.directory (RecordFolder.fileName project)) = .ok content)
    (hi : 1 ≤ i) (few : i ≤ RecordStore.overlappingReads n) (hj : j ≤ EntityKind.all.length) :
    ReachesFrom d n before project (inTurn before project content i j) := by
  induction j with
  | zero => exact reaches_inTurn_zero missing few
  | succ j ih =>
    obtain ⟨kind, rfl⟩ := exists_position hj
    exact reaches_inTurn_succ missing hname hread hi kind (ih (Nat.le_of_succ_le hj))

/-- The state in which all calls have ended. -/
def ended (before : RecordFolder) (project content : String) (i : Nat) : Listing :=
  inTurn before project content i EntityKind.all.length

theorem isFinished_ended (before : RecordFolder) (project content : String) (i : Nat) :
    (ended before project content i).IsFinished := by
  intro kind
  rw [ended, stage_inTurn, if_pos (position_lt kind)]

theorem store_ended (before : RecordFolder) (project content : String)
    (few : i ≤ RecordStore.overlappingReads n) :
    (ended before project content i).store = grown before project content i := by
  have all : min i EntityKind.all.length = i :=
    Nat.min_eq_left (le_trans few (Nat.min_le_right _ _))
  unfold ended inTurn
  dsimp only
  rw [if_neg (by decide), all]

theorem flatMap_batches_ended (before : RecordFolder) (project content : String) (i : Nat) :
    (ended before project content i).batches.flatMap Prod.snd =
      byKind (RecordFile.records content.toList) := rfl

theorem reports_ended (few : i ≤ RecordStore.overlappingReads n) :
    Reports project content i ((ended { directory } project content i).output project) := by
  refine reports_output ?_
  rw [store_ended _ _ _ few]
  rfl

/-- Reading a project that is not kept. -/
theorem load_of_missing (missing : before.file? project = none)
    (hname : isProjectName project = true)
    (hread : d.readText (Path.join before.directory (RecordFolder.fileName project)) = .ok content)
    (readers : Nat) : before.load d readers project = .ok (grown before project content readers) := by
  rw [RecordFolder.load, RecordFolder.projectPath, missing, Option.isSome_none,
    if_neg Bool.false_ne_true, if_pos hname]
  simp only [bind, Except.bind]
  rw [hread]
  rfl

/-- The build of a store is that in which as many calls as may overlap find the project absent. -/
theorem buildGraph_eq_output (missing : before.file? project = none)
    (hname : isProjectName project = true)
    (hread : d.readText (Path.join before.directory (RecordFolder.fileName project)) =
      .ok content) :
    (RecordStore.folder before).buildGraph d n project =
      (.ok ((ended before project content (RecordStore.overlappingReads n)).output project),
        .folder (ended before project content (RecordStore.overlappingReads n)).store) := by
  have loaded := load_of_missing missing hname hread (RecordStore.overlappingReads n)
  rw [← store_ended before project content (Nat.le_refl _)] at loaded
  have records : (ended before project content (RecordStore.overlappingReads n)).store.records
      project = RecordFile.records content.toList := by
    rw [store_ended _ _ _ (Nat.le_refl _)]
    exact RecordFolder.records_of_file? (file?_kept missing content _)
  unfold RecordStore.buildGraph
  rw [readProject_of_load loaded, records]
  rfl

/-! ## How often warnings are reported -/

/-- When the calls of a build over a fresh store have ended, the warnings of the file come first, in
their order, and all of them so many times: at least once and at most as often as calls may overlap.
Each such number of times is possible, so it is certain that each warning comes once just if calls
do not overlap or all lines are records. All other answers do not depend on the calls. -/
theorem warnings_repeat (hname : isProjectName project = true)
    (hread : d.readText (Path.join directory (RecordFolder.fileName project)) = .ok content) :
    (∀ s, Reaches d n directory project s → s.IsFinished → Outcome n project content s) ∧
    (∀ k, 1 ≤ k → k ≤ RecordStore.overlappingReads n → ∃ s, Reaches d n directory project s ∧
      s.IsFinished ∧ Reports project content k (s.output project)) ∧
    ((∀ s, Reaches d n directory project s → s.IsFinished →
        Reports project content 1 (s.output project)) ↔
      n ≤ 1 ∨ RecordFile.warnings project content.toList = []) := by
  have outcome (s : Listing) (h : Reaches d n directory project s) (finished : s.IsFinished) :
      Outcome n project content s := by
    have invariant : Invariant n { directory } project content s := ReachesFrom.invariant rfl hread h
    exact invariant.outcome finished
  have possible (k : Nat) (hk : 1 ≤ k) (few : k ≤ RecordStore.overlappingReads n) :
      ∃ s, Reaches d n directory project s ∧ s.IsFinished ∧
        Reports project content k (s.output project) :=
    ⟨ended { directory } project content k, reaches_inTurn rfl hname hread hk few (Nat.le_refl _),
      isFinished_ended _ _ _ _, reports_ended few⟩
  refine ⟨outcome, possible, fun once => ?_, fun or s h finished => ?_⟩
  · by_contra neither
    obtain ⟨many, some_line⟩ := not_or.1 neither
    have two : 2 ≤ RecordStore.overlappingReads n := by
      have four : EntityKind.all.length = 4 := rfl
      rw [RecordStore.overlappingReads]
      omega
    obtain ⟨s, h, finished, twice⟩ := possible 2 (by decide) two
    exact absurd ((once s h finished).unique twice some_line) (by decide)
  · obtain ⟨k, hk, few, reports⟩ := (outcome s h finished).reports
    cases or with
    | inl single =>
      have one : RecordStore.overlappingReads n ≤ 1 := by
        rw [RecordStore.overlappingReads]
        omega
      obtain rfl : k = 1 := by omega
      exact reports
    | inr all_records =>
      have none_left (k : Nat) : copies project content k = [] := by
        rw [copies, all_records]
        simp
      unfold Reports at reports ⊢
      rwa [none_left] at reports ⊢

/-- A disk with a file of one line, which is no record. -/
def brokenDisk : Disk where
  entries := [([Text.octets "records"], .directory),
    ([Text.octets "records", Text.octets "demo.jsonl"], .file "not json\n".toUTF8)]

/-- The warning for its line. -/
def brokenLine : LoadWarning :=
  ⟨"demo", 1, Json.Fault.message "not json".toList ⟨.expectedWord, 6⟩⟩

theorem readText_brokenDisk :
    brokenDisk.readText (Path.join "records" (RecordFolder.fileName "demo")) = .ok "not json\n" :=
  Disk.readText_of_readBytes rfl

theorem warnings_brokenLine : RecordFile.warnings "demo" "not json\n".toList = [brokenLine] := by
  rfl

/-- If up to four calls may overlap, the line can be reported three times. -/
theorem warnings_repeat_brokenDisk : ∃ s, Reaches brokenDisk 4 "records" "demo" s ∧
    s.IsFinished ∧ Reports "demo" "not json\n" 3 (s.output "demo") :=
  (warnings_repeat rfl readText_brokenDisk).2.1 3 (by decide) (by decide)

/-- If two calls may overlap, the line is reported twice. -/
theorem build_repeats_brokenLine : ∃ out store,
    (RecordStore.folder { directory := "records" }).buildGraph brokenDisk 2 "demo" =
      (.ok out, store) ∧
    RecordFile.warnings "demo" "not json\n".toList = [brokenLine] ∧
    out.warnings = [.malformedRecord brokenLine, .malformedRecord brokenLine] := by
  refine ⟨_, _, buildGraph_eq_output rfl rfl readText_brokenDisk, warnings_brokenLine, ?_⟩
  have twice : copies "demo" "not json\n" 2 = [brokenLine, brokenLine] := by
    rw [copies, warnings_brokenLine]
    rfl
  have nothing : byKind (RecordFile.records "not json\n".toList) = [] := by rfl
  have no_others : (Build.ofRecords []).warnings = [] := by cbv
  have warnings : (ended { directory := "records" } "demo" "not json\n" 2).store.warnings =
      [brokenLine, brokenLine] := twice
  have blocks := warnings_output (ended { directory := "records" } "demo" "not json\n" 2) "demo"
  rw [flatMap_batches_ended, nothing, no_others, RecordFolder.loadWarnings, warnings] at blocks
  exact blocks.trans rfl

end Listing

end LayerGraph
