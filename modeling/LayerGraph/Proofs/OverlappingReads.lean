import LayerGraph.Proofs.FolderMemory
import LayerGraph.Proofs.RecordOrder
import Mathlib.Logic.Relation

/-!
# Reads that overlap

A build lists the records of the four kinds with calls that may overlap. Each call looks whether the
project is kept, and if it is not, reads the file, reports its warnings and keeps the project. Only
the last step is guarded against being done twice. So each call that found the project absent
reports all warnings of the file.

Main statements:
1. `Listing.ReachesFrom.invariant`: what holds in every state of such calls.
2. `Listing.Invariant.outcome`: what holds when they have ended.
3. `Listing.exists_ended`: they come to an end.
-/

namespace LayerGraph

/-- How far a call has come that lists the records of one kind. -/
inductive Listing.Stage
  | waiting
  /-- It is about to look whether the project is kept. -/
  | begun
  /-- It has found the project absent and is about to read the file. -/
  | absent
  /-- It has read the file and is about to report its warnings. -/
  | read (content : String)
  /-- It has reported them and is about to keep the project. -/
  | reported (content : String)
  /-- The project is kept, and it is about to list its records. -/
  | kept
  | listed
deriving DecidableEq, Repr

/-- The calls of a build that list the records of a project: the store that they share, how far each
of them has come, and what has been listed. -/
structure Listing where
  store : RecordFolder
  stage : EntityKind → Listing.Stage := fun _ => .waiting
  batches : List (EntityKind × List EntityRecord) := []

/-- The store in which a project is kept, unless it is already. -/
def RecordFolder.keepIfAbsent (f : RecordFolder) (file : ProjectFile) : RecordFolder :=
  if (f.file? file.project).isSome then f else { f with files := f.files ++ [file] }

namespace Listing

namespace Stage

/-- Whether the call has begun and has not ended. -/
def isUnderWay : Stage → Bool
  | waiting | listed => false
  | _ => true

/-- Whether the call is yet to report warnings. -/
def isPending : Stage → Bool
  | absent | read _ => true
  | _ => false

/-- Whether the call has reported warnings and not kept the project yet. -/
def isReported : Stage → Bool
  | reported _ => true
  | _ => false

end Stage

/-- How many calls are at such a stage. -/
def count (s : Listing) (p : Stage → Bool) : Nat :=
  EntityKind.all.countP fun kind => p (s.stage kind)

/-- One call goes on. -/
def move (s : Listing) (kind : EntityKind) (stage : Stage) : Listing :=
  { s with stage := Function.update s.stage kind stage }

/-- What one of the calls can do next. They begin in the order of the kinds, and no more than `n`
are under way at once. -/
inductive Step (d : Disk) (n : Nat) (project : String) : Listing → Listing → Prop
  | start {s : Listing} {kind : EntityKind} {before after : List EntityKind} :
      EntityKind.all = before ++ kind :: after → (∀ earlier ∈ before, s.stage earlier ≠ .waiting) →
      s.stage kind = .waiting → s.count Stage.isUnderWay < max n 1 →
      Step d n project s (s.move kind .begun)
  | find {s : Listing} {kind : EntityKind} :
      s.stage kind = .begun → (s.store.file? project).isSome = true →
      Step d n project s (s.move kind .kept)
  | miss {s : Listing} {kind : EntityKind} :
      s.stage kind = .begun → s.store.file? project = none →
      Step d n project s (s.move kind .absent)
  | read {s : Listing} {kind : EntityKind} {path content : String} :
      s.stage kind = .absent → s.store.projectPath project = .ok path →
      d.readText path = .ok content →
      Step d n project s (s.move kind (.read content))
  | report {s : Listing} {kind : EntityKind} {content : String} :
      s.stage kind = .read content →
      Step d n project s { s.move kind (.reported content) with
        store := { s.store with
          warnings := s.store.warnings ++ RecordFile.warnings project content.toList } }
  | keep {s : Listing} {kind : EntityKind} {content : String} :
      s.stage kind = .reported content →
      Step d n project s { s.move kind .kept with
        store := s.store.keepIfAbsent
          { project, records := RecordFile.records content.toList } }
  | list {s : Listing} {kind : EntityKind} :
      s.stage kind = .kept →
      Step d n project s { s.move kind .listed with
        batches := s.batches ++ [(kind, (s.store.records project).filter (·.kind = kind))] }

/-- The states that the calls of a build can come to. -/
def ReachesFrom (d : Disk) (n : Nat) (before : RecordFolder) (project : String) : Listing → Prop :=
  Relation.ReflTransGen (Step d n project) { store := before }

/-- The states that the calls of a build over a fresh store can come to. -/
def Reaches (d : Disk) (n : Nat) (directory project : String) : Listing → Prop :=
  ReachesFrom d n { directory } project

/-- All records have been listed. -/
def IsFinished (s : Listing) : Prop := ∀ kind, s.stage kind = .listed

/-- A call that has found the project absent cannot read its file, and the build ends with that
error. -/
inductive Fails (d : Disk) (project : String) (s : Listing) : Error → Prop
  | misnamed {kind : EntityKind} {e : Error} :
      s.stage kind = .absent → s.store.projectPath project = .error e → Fails d project s e
  | missing {kind : EntityKind} {path : String} :
      s.stage kind = .absent → s.store.projectPath project = .ok path →
      d.readText path = .error .notFound → Fails d project s (.projectNotFound project)
  | fault {kind : EntityKind} {path : String} {fault : FileFault} :
      s.stage kind = .absent → s.store.projectPath project = .ok path →
      d.readText path = .error fault → fault ≠ .notFound → Fails d project s (.file fault)

/-- What the build makes of the records that have been listed, in the order in which the calls have
ended. -/
def output (s : Listing) (project : String) : BuildOutput :=
  (RecordStore.folder s.store).output project (s.batches.flatMap Prod.snd)

/-! ## Counting stages -/

variable {s s' : Listing} {d : Disk} {n : Nat} {before : RecordFolder} {project content : String}
  {kind : EntityKind}

theorem count_move (s : Listing) (kind : EntityKind) (stage : Stage) (p : Stage → Bool) :
    (s.move kind stage).count p + (p (s.stage kind)).toNat = s.count p + (p stage).toNat := by
  have toNat (b : Bool) : (if b = true then 1 else 0) = b.toNat := by cases b <;> rfl
  cases kind <;>
    simp [count, move, EntityKind.all, List.countP_cons, Function.update_apply, toNat] <;> omega

theorem count_move_of_eq {stage : Stage} {p : Stage → Bool} (h : p (s.stage kind) = p stage) :
    (s.move kind stage).count p = s.count p := by
  have moved := count_move s kind stage p
  rw [h] at moved
  exact Nat.add_right_cancel moved

theorem count_le_length (s : Listing) (p : Stage → Bool) : s.count p ≤ EntityKind.all.length :=
  List.countP_le_length

theorem count_add_count_le {p q r : Stage → Bool}
    (h : ∀ stage, (p stage).toNat + (q stage).toNat ≤ (r stage).toNat) (s : Listing) :
    s.count p + s.count q ≤ s.count r := by
  unfold count
  induction EntityKind.all with
  | nil => exact Nat.le_refl _
  | cons kind rest ih =>
    have here := h (s.stage kind)
    have toNat (b : Bool) : (if b = true then 1 else 0) = b.toNat := by cases b <;> rfl
    simp only [List.countP_cons, toNat]
    omega

theorem one_le_count {p : Stage → Bool} (h : p (s.stage kind) = true) : 1 ≤ s.count p :=
  List.countP_pos_iff.2 ⟨kind, by cases kind <;> decide, h⟩

/-! ## What all states have in common -/

/-- The warnings of a file, reported so many times. -/
def copies (project content : String) (j : Nat) : List LoadWarning :=
  (List.replicate j (RecordFile.warnings project content.toList)).flatten

theorem copies_succ (project content : String) (j : Nat) : copies project content (j + 1) =
    copies project content j ++ RecordFile.warnings project content.toList := by
  rw [copies, List.replicate_succ', List.flatten_append, List.flatten_singleton, copies]

/-- The project as it is kept. -/
def file (project content : String) : ProjectFile where
  project
  records := RecordFile.records content.toList

/-- The store after the warnings have been reported so many times, as long as the project is not
kept. -/
def noted (before : RecordFolder) (project content : String) (j : Nat) : RecordFolder :=
  { before with warnings := before.warnings ++ copies project content j }

/-- The store that keeps the project after the warnings have been reported so many times. -/
def grown (before : RecordFolder) (project content : String) (j : Nat) : RecordFolder :=
  { before with
    files := before.files ++ [file project content]
    warnings := before.warnings ++ copies project content j }

/-- The store that the calls share. As long as the project is not kept, no call has got past that,
so all that have begun are under way. From then on no call finds it absent, so the warnings come
once for each that had, and those calls have been under way together. -/
inductive Shared (n : Nat) (before : RecordFolder) (project content : String) (s : Listing) : Prop
  | absent
      (store : s.store = noted before project content (s.count Stage.isReported))
      (few : s.count Stage.isUnderWay ≤ max n 1)
      (early : ∀ kind, s.stage kind ≠ .kept ∧ s.stage kind ≠ .listed)
  | kept {j : Nat}
      (store : s.store = grown before project content j)
      (some_reported : 1 ≤ j)
      (few : j + s.count Stage.isPending ≤ RecordStore.overlappingReads n)

/-- The calls have read nothing but the text of the file. -/
def Carries (content : String) (s : Listing) : Prop :=
  ∀ kind c, s.stage kind = .read c ∨ s.stage kind = .reported c → c = content

/-- The records that have been listed are the given ones, for each kind once. -/
structure Listed (rs : List EntityRecord) (s : Listing) : Prop where
  once : (s.batches.map Prod.fst).Nodup
  kinds : ∀ kind, kind ∈ s.batches.map Prod.fst ↔ s.stage kind = .listed
  records : ∀ b ∈ s.batches, b.2 = rs.filter (·.kind = b.1)

theorem listed_start (rs : List EntityRecord) (store : RecordFolder) : Listed rs { store } :=
  ⟨List.nodup_nil, fun _ => ⟨nofun, nofun⟩, nofun⟩

/-- What holds in every state, if the project is not kept at the start and its file can be read. -/
structure Invariant (n : Nat) (before : RecordFolder) (project content : String) (s : Listing) :
    Prop where
  shared : Shared n before project content s
  carries : Carries content s
  listed : Listed (RecordFile.records content.toList) s

theorem invariant_start : Invariant n before project content { store := before } where
  shared := .absent (by simp [noted, copies, count, EntityKind.all, Stage.isReported])
    (Nat.zero_le _) fun _ => ⟨nofun, nofun⟩
  carries := nofun
  listed := listed_start _ _

theorem stage_move (s : Listing) (kind other : EntityKind) (stage : Stage) :
    (s.move kind stage).stage other = if other = kind then stage else s.stage other :=
  Function.update_apply _ _ _ _

theorem stage_move_self (s : Listing) (kind : EntityKind) (stage : Stage) :
    (s.move kind stage).stage kind = stage :=
  Function.update_self _ _ _

theorem file?_noted (absent : before.file? project = none) (content : String) (j : Nat) :
    (noted before project content j).file? project = none := absent

theorem file?_kept (absent : before.file? project = none) (content : String) (j : Nat) :
    (grown before project content j).file? project = some (file project content) :=
  RecordFolder.file?_keep absent _

/-- Calls that are yet to report or have just reported are under way. -/
theorem count_reported_add_pending (s : Listing) :
    s.count Stage.isReported + s.count Stage.isPending ≤ s.count Stage.isUnderWay :=
  count_add_count_le (fun stage => by cases stage <;> simp [Stage.isReported, Stage.isPending,
    Stage.isUnderWay]) s

theorem early_move {stage : Stage} (early : ∀ kind, s.stage kind ≠ .kept ∧ s.stage kind ≠ .listed)
    (h : stage ≠ .kept ∧ stage ≠ .listed) (other : EntityKind) :
    (s.move kind stage).stage other ≠ .kept ∧ (s.move kind stage).stage other ≠ .listed := by
  rw [stage_move]
  split
  · exact h
  · exact early other

/-- A call goes on that neither reports nor keeps the project, which is not kept. -/
theorem Shared.absent_move {stage : Stage}
    (store : s.store = noted before project content (s.count Stage.isReported))
    (few : (s.move kind stage).count Stage.isUnderWay ≤ max n 1)
    (early : ∀ kind, s.stage kind ≠ .kept ∧ s.stage kind ≠ .listed)
    (h : stage ≠ .kept ∧ stage ≠ .listed) (same : (s.stage kind).isReported = stage.isReported) :
    Shared n before project content (s.move kind stage) := by
  refine .absent (store.trans ?_) few (early_move early h)
  rw [count_move_of_eq same]

/-- A call goes on that does not report, and the project is kept. -/
theorem Shared.kept_move {stage : Stage} {j : Nat} {batches : List (EntityKind × List EntityRecord)}
    (store : s.store = grown before project content j)
    (some_reported : 1 ≤ j) (few : j + s.count Stage.isPending ≤ RecordStore.overlappingReads n)
    (no_more : stage.isPending.toNat ≤ (s.stage kind).isPending.toNat) :
    Shared n before project content { s.move kind stage with batches } := by
  refine .kept store some_reported (le_trans ?_ few)
  have pending := count_move s kind stage Stage.isPending
  show j + (s.move kind stage).count Stage.isPending ≤ _
  omega

/-- A call reports the warnings of the file, whether or not the project is kept by now. -/
theorem Shared.report (hs : Shared n before project content s)
    (hread : s.stage kind = .read content) :
    Shared n before project content { s.move kind (.reported content) with
      store := { s.store with
        warnings := s.store.warnings ++ RecordFile.warnings project content.toList } } := by
  cases hs with
  | absent store few early =>
    have reported := count_move s kind (.reported content) Stage.isReported
    rw [hread] at reported
    have one_more : (s.move kind (.reported content)).count Stage.isReported =
        s.count Stage.isReported + 1 := reported
    refine .absent ?_ ?_ (early_move early ⟨nofun, nofun⟩)
    · show RecordFolder.mk _ _ _ = noted before project content
        ((s.move kind (.reported content)).count Stage.isReported)
      rw [one_more, noted, copies_succ, ← List.append_assoc, store]
      rfl
    · exact (count_move_of_eq (by rw [hread]; rfl)).trans_le few
  | @kept j store some_reported few =>
    have pending := count_move s kind (.reported content) Stage.isPending
    rw [hread] at pending
    have one_less : (s.move kind (.reported content)).count Stage.isPending + 1 =
        s.count Stage.isPending := pending
    refine .kept (j := j + 1) ?_ (Nat.le_add_left 1 j) ?_
    · show RecordFolder.mk _ _ _ = grown before project content (j + 1)
      rw [grown, copies_succ, ← List.append_assoc, store]
      rfl
    · show j + 1 + (s.move kind (.reported content)).count Stage.isPending ≤ _
      omega

/-- The first call that gets so far keeps the project. -/
theorem Shared.keep (hs : Shared n before project content s) (missing : before.file? project = none)
    (reported : s.stage kind = .reported content) :
    Shared n before project content { s.move kind .kept with
      store := s.store.keepIfAbsent (file project content) } := by
  have same : (s.move kind .kept).count Stage.isPending = s.count Stage.isPending :=
    count_move_of_eq (by rw [reported]; rfl)
  cases hs with
  | absent store few early =>
    have among := count_reported_add_pending s
    have all := s.count_le_length Stage.isUnderWay
    refine .kept (j := s.count Stage.isReported) ?_ (one_le_count (by rw [reported]; rfl)) ?_
    · show RecordFolder.keepIfAbsent _ _ = _
      rw [store, RecordFolder.keepIfAbsent, file, file?_noted missing, Option.isSome_none,
        if_neg Bool.false_ne_true]
      rfl
    · show s.count Stage.isReported + (s.move kind .kept).count Stage.isPending ≤ _
      rw [same, RecordStore.overlappingReads]
      omega
  | @kept j store some_reported few =>
    refine .kept (j := j) ?_ some_reported ?_
    · show RecordFolder.keepIfAbsent _ _ = _
      rw [store, RecordFolder.keepIfAbsent]
      exact if_pos (congrArg Option.isSome (file?_kept missing content j))
    · show j + (s.move kind .kept).count Stage.isPending ≤ _
      rwa [same]

theorem Shared.step (hs : Shared n before project content s) (carries : Carries content s)
    (missing : before.file? project = none) (step : Step d n project s s') :
    Shared n before project content s' := by
  cases step with
  | @start kind before after order begun waiting room =>
    cases hs with
    | absent store few early =>
      refine .absent_move store ?_ early ⟨nofun, nofun⟩ (by rw [waiting]; rfl)
      have underWay := count_move s kind .begun Stage.isUnderWay
      rw [waiting] at underWay
      exact (Nat.add_right_cancel underWay : _ = s.count Stage.isUnderWay + 1) ▸ room
    | kept store some_reported few =>
      exact .kept_move store some_reported few (by rw [waiting]; exact Nat.le_refl _)
  | @find kind begun found =>
    cases hs with
    | absent store few early =>
      rw [store, file?_noted missing] at found
      cases found
    | kept store some_reported few =>
      exact .kept_move store some_reported few (by rw [begun]; exact Nat.le_refl _)
  | @miss kind begun absent =>
    cases hs with
    | absent store few early =>
      refine .absent_move store ?_ early ⟨nofun, nofun⟩ (by rw [begun]; rfl)
      exact (count_move_of_eq (by rw [begun]; rfl)).trans_le few
    | kept store some_reported few =>
      rw [store, file?_kept missing] at absent
      cases absent
  | @read kind path text absent named hread =>
    cases hs with
    | absent store few early =>
      refine .absent_move store ?_ early ⟨nofun, nofun⟩ (by rw [absent]; rfl)
      exact (count_move_of_eq (by rw [absent]; rfl)).trans_le few
    | kept store some_reported few =>
      exact .kept_move store some_reported few (by rw [absent]; exact Nat.le_refl _)
  | report hread =>
    obtain rfl := carries _ _ (.inl hread)
    exact hs.report hread
  | keep reported =>
    obtain rfl := carries _ _ (.inr reported)
    exact hs.keep missing reported
  | @list kind kept =>
    cases hs with
    | absent store few early => exact absurd kept (early kind).1
    | kept store some_reported few =>
      exact .kept_move store some_reported few (by rw [kept]; exact Nat.le_refl _)

theorem Shared.directory_eq (hs : Shared n before project content s) :
    s.store.directory = before.directory := by
  cases hs with
  | absent store => rw [store]; rfl
  | kept store => rw [store]; rfl

theorem Carries.move {stage : Stage} {store : RecordFolder}
    {batches : List (EntityKind × List EntityRecord)} (carries : Carries content s)
    (h : ∀ c, stage = .read c ∨ stage = .reported c → c = content) :
    Carries content { s.move kind stage with store, batches } := by
  intro other c at_work
  have now : Listing.stage { s.move kind stage with store, batches } other =
      (s.move kind stage).stage other := rfl
  rw [now, stage_move] at at_work
  split at at_work
  · exact h c at_work
  · exact carries other c at_work

theorem Carries.step (carries : Carries content s) (hs : Shared n before project content s)
    (hread : d.readText (Path.join before.directory (RecordFolder.fileName project)) = .ok content)
    (step : Step d n project s s') : Carries content s' := by
  cases step with
  | read absent named hread' =>
    refine carries.move fun c same => ?_
    cases same.resolve_right nofun
    unfold RecordFolder.projectPath at named
    split at named
    · cases named
      rw [hs.directory_eq, hread] at hread'
      exact (Except.ok.inj hread').symm
    · cases named
  | @report kind text hold =>
    refine carries.move fun c same => ?_
    cases same.resolve_left nofun
    exact carries _ _ (.inl hold)
  | start | find | miss | keep | list => exact carries.move nofun

theorem Listed.move {rs : List EntityRecord} {stage : Stage} {store : RecordFolder}
    (listed : Listed rs s) (old : s.stage kind ≠ .listed) (new : stage ≠ .listed) :
    Listed rs { s.move kind stage with store } := by
  refine ⟨listed.once, fun other => (listed.kinds other).trans ?_, listed.records⟩
  show _ ↔ (s.move kind stage).stage other = .listed
  rw [stage_move]
  split
  · rename_i own
    exact iff_of_false (own ▸ old) new
  · exact Iff.rfl

/-- A call lists the records of its kind, if those of the project are the given ones once it is
kept. -/
theorem Listed.step {rs : List EntityRecord} (listed : Listed rs s)
    (records : ∀ kind, s.stage kind = .kept → s.store.records project = rs)
    (step : Step d n project s s') : Listed rs s' := by
  cases step with
  | start _ _ waiting => exact listed.move (by rw [waiting]; nofun) nofun
  | find begun | miss begun => exact listed.move (by rw [begun]; nofun) nofun
  | read absent => exact listed.move (by rw [absent]; nofun) nofun
  | report read => exact listed.move (by rw [read]; nofun) nofun
  | keep reported => exact listed.move (by rw [reported]; nofun) nofun
  | @list kind kept =>
    have new : kind ∉ s.batches.map Prod.fst := by
      rw [listed.kinds, kept]
      nofun
    refine ⟨?_, fun other => ?_, fun b hb => ?_⟩
    · show ((s.batches ++ [(kind, _)]).map Prod.fst).Nodup
      rw [List.map_append]
      exact listed.once.append (List.nodup_singleton kind) (by simpa using new)
    · show other ∈ (s.batches ++ [(kind, _)]).map Prod.fst ↔ (s.move kind .listed).stage other = _
      rw [List.map_append, List.mem_append, listed.kinds, stage_move]
      by_cases own : other = kind <;> simp [own]
    · rcases List.mem_append.1 hb with old | last
      · exact listed.records b old
      · obtain rfl := List.mem_singleton.1 last
        rw [records kind kept]

/-- Once a call is past the cache, the project is kept as the file has it. -/
theorem Shared.records (hs : Shared n before project content s)
    (missing : before.file? project = none) (kept : s.stage kind = .kept) :
    s.store.records project = RecordFile.records content.toList := by
  cases hs with
  | absent _ _ early => exact absurd kept (early kind).1
  | kept store =>
    rw [store]
    exact RecordFolder.records_of_file? (file?_kept missing content _)

/-- Each step preserves what all states have in common, so it holds in every state. -/
theorem Invariant.step (h : Invariant n before project content s)
    (missing : before.file? project = none)
    (hread : d.readText (Path.join before.directory (RecordFolder.fileName project)) = .ok content)
    (step : Step d n project s s') : Invariant n before project content s' :=
  ⟨h.shared.step h.carries missing step, h.carries.step h.shared hread step,
    h.listed.step (fun _ => h.shared.records missing) step⟩

theorem ReachesFrom.invariant (missing : before.file? project = none)
    (hread : d.readText (Path.join before.directory (RecordFolder.fileName project)) = .ok content)
    (h : ReachesFrom d n before project s) : Invariant n before project content s := by
  induction h with
  | refl => exact invariant_start
  | tail _ step ih => exact ih.step missing hread step

/-! ## What has been reported in the end -/

/-- The warnings of a build begin with those of the file, so many times over, and no other one is
about a line. -/
def Reports (project content : String) (k : Nat) (out : BuildOutput) : Prop :=
  ∃ others, out.warnings = (copies project content k).map .malformedRecord ++ others ∧
    ∀ w, .malformedRecord w ∉ others

theorem malformedRecord_notMem_ofRecords (rs : List EntityRecord) (w : LoadWarning) :
    .malformedRecord w ∉ (Build.ofRecords rs).warnings := by
  rw [(Build.resolved_ofRecords rs).warnings]
  simp [Build.unnamedWarnings, Build.duplicateWarnings, Build.unresolvedWarnings, Build.unresolved]

theorem project_of_mem_warnings {w : LoadWarning} {content : List Char}
    (h : w ∈ RecordFile.warnings project content) : w.project = project := by
  obtain ⟨⟨line, entry⟩, -, hentry⟩ := List.mem_filterMap.1 h
  cases entry with
  | ok r => cases hentry
  | error fault =>
    cases hentry
    rfl

theorem project_of_mem_copies {w : LoadWarning} {k : Nat} (h : w ∈ copies project content k) :
    w.project = project := by
  simp only [copies, List.mem_flatten, List.mem_replicate] at h
  obtain ⟨_, ⟨-, rfl⟩, hw⟩ := h
  exact project_of_mem_warnings hw

theorem loadWarnings_grown (before : RecordFolder) (project content : String) (j : Nat) :
    (grown before project content j).loadWarnings project =
      before.loadWarnings project ++ copies project content j := by
  unfold grown RecordFolder.loadWarnings
  dsimp only
  rw [List.filter_append,
    List.filter_eq_self.2 fun w hw => decide_eq_true (project_of_mem_copies hw)]

theorem warnings_output (s : Listing) (project : String) : (s.output project).warnings =
    (s.store.loadWarnings project).map .malformedRecord ++
      (Build.ofRecords (s.batches.flatMap Prod.snd)).warnings := rfl

theorem reports_output {k : Nat} (store : s.store.warnings = copies project content k) :
    Reports project content k (s.output project) := by
  refine ⟨(Build.ofRecords (s.batches.flatMap Prod.snd)).warnings, ?_,
    malformedRecord_notMem_ofRecords _⟩
  rw [warnings_output, RecordFolder.loadWarnings, store,
    List.filter_eq_self.2 fun w hw => decide_eq_true (project_of_mem_copies hw)]

/-- The line that a warning is about, if it is about one. -/
def lineWarning? : BuildWarning → Option LoadWarning
  | .malformedRecord w => some w
  | _ => none

theorem Reports.filterMap_warnings {k : Nat} {out : BuildOutput}
    (h : Reports project content k out) :
    out.warnings.filterMap lineWarning? = copies project content k := by
  obtain ⟨others, hwarnings, none_other⟩ := h
  have rest : others.filterMap lineWarning? = [] := by
    refine List.filterMap_eq_nil_iff.2 fun w hw => ?_
    cases w with
    | malformedRecord w => exact absurd hw (none_other w)
    | _ => rfl
  rw [hwarnings, List.filterMap_append, rest, List.append_nil, List.filterMap_map]
  exact List.filterMap_some

/-- Unless all lines are records, the warnings tell how often they have been reported. -/
theorem Reports.unique {j k : Nat} {out : BuildOutput} (hj : Reports project content j out)
    (hk : Reports project content k out)
    (some_line : RecordFile.warnings project content.toList ≠ []) : j = k := by
  have lengths := congrArg List.length (hj.filterMap_warnings.symm.trans hk.filterMap_warnings)
  have positive := List.length_pos_iff.2 some_line
  simp only [copies, List.length_flatten, List.map_replicate, List.sum_replicate] at lengths
  exact Nat.eq_of_mul_eq_mul_right positive lengths

/-- When all calls have ended, the warnings have been reported at least once, and no more often than
calls may overlap. All other answers are those for the records of the file. -/
structure Outcome (n : Nat) (project content : String) (s : Listing) : Prop where
  reports : ∃ k, 1 ≤ k ∧ k ≤ RecordStore.overlappingReads n ∧
    Reports project content k (s.output project)
  answers : Build.SameAnswers (Build.ofRecords (s.batches.flatMap Prod.snd))
    (Build.ofRecords (byKind (RecordFile.records content.toList)))

/-- When all calls have ended, each kind has been listed. -/
theorem Listed.kinds_perm {rs : List EntityRecord} (listed : Listed rs s)
    (finished : s.IsFinished) : (s.batches.map Prod.fst).Perm EntityKind.all := by
  refine (List.perm_ext_iff_of_nodup listed.once (by decide)).2 fun kind => ?_
  exact iff_of_true ((listed.kinds kind).2 (finished kind)) (by cases kind <;> decide)

/-- The records that have been listed, in the order in which the calls have ended. -/
theorem Listed.flatMap_batches {rs : List EntityRecord} (listed : Listed rs s) :
    s.batches.flatMap Prod.snd =
      (s.batches.map Prod.fst).flatMap fun kind => rs.filter (·.kind = kind) := by
  rw [List.flatMap_map]
  exact List.flatMap_congr listed.records

theorem Invariant.outcome {directory : String} (h : Invariant n { directory } project content s)
    (finished : s.IsFinished) : Outcome n project content s := by
  constructor
  · cases h.shared with
    | absent _ _ early => exact absurd (finished .table) (early .table).2
    | @kept j store some_reported few =>
      exact ⟨j, some_reported, le_trans (Nat.le_add_right _ _) few,
        reports_output (by rw [store]; rfl)⟩
  · rw [h.listed.flatMap_batches]
    exact (Build.ofRecords_perm (List.Perm.refl [])).2 _ _ (h.listed.kinds_perm finished)

/-! ## The calls end -/

/-- No call that is not at its end is stuck unless it cannot read the file: one that is under way can
go on, and if none is, the next one can begin. -/
theorem exists_step (n : Nat) (unfinished : ¬ s.IsFinished) (reads : ∀ e, ¬ s.Fails d project e) :
    ∃ s', Step d n project s s' := by
  by_cases idle : ∀ kind, (s.stage kind).isUnderWay = false
  · have some_waiting : ∃ kind, s.stage kind = .waiting := by
      by_contra none_waiting
      refine unfinished fun kind => ?_
      have stopped := idle kind
      have begun := not_exists.1 none_waiting kind
      generalize s.stage kind = stage at stopped begun
      cases stage <;> simp_all [Stage.isUnderWay]
    obtain ⟨kind, waiting⟩ := some_waiting
    have found : (EntityKind.all.find? fun kind => s.stage kind = .waiting).isSome = true := by
      rw [List.find?_isSome]
      exact ⟨kind, by cases kind <;> decide, decide_eq_true waiting⟩
    obtain ⟨next, hnext⟩ := Option.isSome_iff_exists.1 found
    obtain ⟨waits, before, after, order, begun⟩ := List.find?_eq_some_iff_append.1 hnext
    have room : s.count Stage.isUnderWay = 0 :=
      List.countP_eq_zero.2 fun kind _ => by rw [idle kind]; exact Bool.false_ne_true
    refine ⟨_, .start order (fun earlier hmem => ?_) (of_decide_eq_true waits) (by omega)⟩
    simpa using begun earlier hmem
  · obtain ⟨kind, underWay⟩ := not_forall.1 idle
    rw [Bool.not_eq_false] at underWay
    cases hstage : s.stage kind with
    | waiting | listed =>
      rw [hstage] at underWay
      cases underWay
    | begun =>
      cases hfile : s.store.file? project with
      | none => exact ⟨_, .miss hstage hfile⟩
      | some file => exact ⟨_, .find hstage (by rw [hfile]; rfl)⟩
    | absent =>
      cases hpath : s.store.projectPath project with
      | error e => exact absurd (.misnamed hstage hpath) (reads e)
      | ok path =>
        cases hread : d.readText path with
        | ok content => exact ⟨_, .read hstage hpath hread⟩
        | error fault =>
          by_cases missing : fault = .notFound
          · exact absurd (.missing hstage hpath (missing ▸ hread)) (reads _)
          · exact absurd (.fault hstage hpath hread missing) (reads _)
    | read text => exact ⟨_, .report hstage⟩
    | reported text => exact ⟨_, .keep hstage⟩
    | kept => exact ⟨_, .list hstage⟩

/-- How many steps a call may yet take. -/
def Stage.stepsLeft : Stage → Nat
  | waiting => 6
  | begun => 5
  | absent => 4
  | read _ => 3
  | reported _ => 2
  | kept => 1
  | listed => 0

/-- How many steps all calls may yet take. -/
def stepsLeft (s : Listing) : Nat :=
  (EntityKind.all.map fun kind => (s.stage kind).stepsLeft).sum

theorem stepsLeft_move (s : Listing) (kind : EntityKind) (stage : Stage) :
    (s.move kind stage).stepsLeft + (s.stage kind).stepsLeft = s.stepsLeft + stage.stepsLeft := by
  cases kind <;>
    simp [stepsLeft, move, EntityKind.all, Function.update_apply] <;> omega

/-- Each step brings the end nearer, so there is no endless run of calls. -/
theorem stepsLeft_lt_of_step (step : Step d n project s s') : s'.stepsLeft < s.stepsLeft := by
  have moved {kind : EntityKind} {stage : Stage} {store : RecordFolder}
      {batches : List (EntityKind × List EntityRecord)}
      (h : stage.stepsLeft < (s.stage kind).stepsLeft) :
      stepsLeft { s.move kind stage with store, batches } < s.stepsLeft := by
    have sum := stepsLeft_move s kind stage
    show (s.move kind stage).stepsLeft < _
    omega
  cases step with
  | start _ _ waiting => exact moved (by rw [waiting]; decide)
  | find begun | miss begun => exact moved (by rw [begun]; decide)
  | read absent => exact moved (by rw [absent]; exact Nat.lt_add_one _)
  | report read => exact moved (by rw [read]; exact Nat.lt_add_one _)
  | keep reported => exact moved (by rw [reported]; exact Nat.lt_add_one _)
  | list kept => exact moved (by rw [kept]; decide)

/-- Whatever the calls have done so far, they come to an end: all records are listed, or the file
cannot be read. -/
theorem exists_ended (d : Disk) (n : Nat) (project : String) (s : Listing) :
    ∃ s', Relation.ReflTransGen (Step d n project) s s' ∧
      (s'.IsFinished ∨ ∃ e, s'.Fails d project e) := by
  generalize hleft : s.stepsLeft = left
  induction left using Nat.strong_induction_on generalizing s with
  | _ left ih =>
    by_cases ended : s.IsFinished ∨ ∃ e, s.Fails d project e
    · exact ⟨s, .refl, ended⟩
    · obtain ⟨unfinished, reads⟩ := not_or.1 ended
      obtain ⟨s₁, step⟩ := exists_step n unfinished (not_exists.1 reads)
      obtain ⟨s', steps, ended'⟩ := ih s₁.stepsLeft (hleft ▸ stepsLeft_lt_of_step step) s₁ rfl
      exact ⟨s', .head step steps, ended'⟩

end Listing

end LayerGraph
