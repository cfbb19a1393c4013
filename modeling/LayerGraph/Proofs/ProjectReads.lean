import LayerGraph.Proofs.FolderReads
import LayerGraph.Proofs.RepeatedWarnings

/-!
# All ways to read a project

The calls of a build that list the records of a project may overlap in many ways. Whatever they do,
they have read the project with some number of readers at once and listed its records kind by kind in
some order, or they cannot read it. Each number of readers up to that of the calls that may overlap
is possible.

Main statements:
1. `Listing.ReachesFrom.isReadBy`: what the calls have done when they have ended.
2. `Listing.ReachesFrom.load_of_fails`: what they have done when they cannot read the project.
3. `Listing.exists_isReadBy`, `Listing.exists_fails`: that this can be.
-/

namespace LayerGraph

/-- Records, kind by kind in the given order. -/
def inKinds (kinds : List EntityKind) (rs : List EntityRecord) : List EntityRecord :=
  kinds.flatMap fun kind => rs.filter (·.kind = kind)

namespace Listing

variable {s s' : Listing} {d : Disk} {n : Nat} {before : RecordFolder} {project : String}
  {file : ProjectFile} {kind : EntityKind} {stage : Stage} {e : Error}

/-- The calls have read the project with so many readers, and have listed its records kind by kind in
the given order. -/
structure IsReadBy (d : Disk) (before : RecordFolder) (project : String) (readers : Nat)
    (kinds : List EntityKind) (s : Listing) : Prop where
  load : before.load d readers project = .ok s.store
  records : s.batches.flatMap Prod.snd = inKinds kinds (s.store.records project)

theorem forall_stage_move {p : Stage → Bool} (all : ∀ kind, p (s.stage kind) = true)
    (new : p stage = true) (other : EntityKind) : p ((s.move kind stage).stage other) = true := by
  rw [stage_move]
  split
  · exact new
  · exact all other

/-! ## A project that is kept -/

/-- Whether a call has not found the project absent. -/
def Stage.isServed : Stage → Bool
  | waiting | begun | kept | listed => true
  | _ => false

/-- If the project is kept at the start, no call reads it. -/
structure Served (before : RecordFolder) (file : ProjectFile) (s : Listing) : Prop where
  store : s.store = before
  stages : ∀ kind, (s.stage kind).isServed = true
  listed : Listed file.records s

theorem Served.step (h : Served before file s) (found : before.file? project = some file)
    (step : Step d n project s s') : Served before file s' := by
  have records : s.store.records project = file.records := by
    rw [h.store, RecordFolder.records_of_file? found]
  have listed := h.listed.step (fun _ _ => records) step
  cases step with
  | start => exact ⟨h.store, forall_stage_move h.stages rfl, listed⟩
  | find => exact ⟨h.store, forall_stage_move h.stages rfl, listed⟩
  | miss _ missing =>
    rw [h.store, found] at missing
    cases missing
  | @read kind _ _ reads | @report kind _ reads | @keep kind _ reads =>
    have stopped := h.stages kind
    rw [reads] at stopped
    cases stopped
  | list => exact ⟨h.store, forall_stage_move h.stages rfl, listed⟩

theorem ReachesFrom.served (found : before.file? project = some file)
    (h : ReachesFrom d n before project s) : Served before file s := by
  induction h with
  | refl => exact ⟨rfl, fun _ => rfl, listed_start _ _⟩
  | tail _ step ih => exact ih.step found step

/-! ## A project that cannot be read -/

/-- Whether a call has not read the file. -/
def Stage.isUnread : Stage → Bool
  | waiting | begun | absent => true
  | _ => false

/-- The file of the project cannot be read. -/
def IsUnreadable (d : Disk) (before : RecordFolder) (project : String) : Prop :=
  ∀ path content, before.projectPath project = .ok path → d.readText path ≠ .ok content

/-- If the file of the project cannot be read, no call gets further. -/
structure Unread (before : RecordFolder) (s : Listing) : Prop where
  store : s.store = before
  stages : ∀ kind, (s.stage kind).isUnread = true

theorem Unread.step (h : Unread before s) (missing : before.file? project = none)
    (unreadable : IsUnreadable d before project) (step : Step d n project s s') :
    Unread before s' := by
  cases step with
  | start => exact ⟨h.store, forall_stage_move h.stages rfl⟩
  | find _ found =>
    rw [h.store, missing] at found
    cases found
  | miss => exact ⟨h.store, forall_stage_move h.stages rfl⟩
  | read _ named hread =>
    rw [h.store] at named
    exact absurd hread (unreadable _ _ named)
  | @report kind _ further | @keep kind _ further | @list kind further =>
    have stopped := h.stages kind
    rw [further] at stopped
    cases stopped

theorem ReachesFrom.unread (missing : before.file? project = none)
    (unreadable : IsUnreadable d before project) (h : ReachesFrom d n before project s) :
    Unread before s := by
  induction h with
  | refl => exact ⟨rfl, fun _ => rfl⟩
  | tail _ step ih => exact ih.step missing unreadable step

/-! ## Calls that do not overlap -/

theorem mem_take_of_position_lt {earlier kind : EntityKind}
    (h : position earlier < position kind) : earlier ∈ EntityKind.all.take (position kind) := by
  revert h
  cases earlier <;> cases kind <;> decide

theorem take_position_eq {before after : List EntityKind}
    (order : EntityKind.all = before ++ kind :: after) :
    EntityKind.all.take (position kind) = before := by
  have distinct : (before ++ kind :: after).Nodup := order ▸ (by decide : EntityKind.all.Nodup)
  have new : kind ∉ before := fun hmem =>
    (List.nodup_append.1 distinct).2.2 kind hmem kind List.mem_cons_self rfl
  have place : position kind = before.length := by
    rw [position, order, List.idxOf_append_of_notMem new, List.idxOf_cons_self, Nat.add_zero]
  rw [place, order, List.take_left]

/-- One call after another begins and ends. -/
structure Serial (s : Listing) : Prop where
  earlier : ∀ kind other, position kind < position other → s.stage other ≠ .waiting →
    s.stage kind = .listed
  ended : ∀ kind ∈ s.batches.map Prod.fst, s.stage kind = .listed
  sorted : (s.batches.map Prod.fst).Pairwise fun a b => position a < position b

theorem serial_start (store : RecordFolder) : Serial { store } where
  earlier _ _ _ begun := absurd rfl begun
  ended := nofun
  sorted := List.Pairwise.nil

/-- The call that is under way goes on. -/
theorem Serial.move (h : Serial s) (underWay : (s.stage kind).isUnderWay = true)
    {store : RecordFolder} : Serial { s.move kind stage with store } := by
  have unfinished : s.stage kind ≠ .listed := fun hl => by rw [hl] at underWay; cases underWay
  have started : s.stage kind ≠ .waiting := fun hw => by rw [hw] at underWay; cases underWay
  refine ⟨fun first other before hother => ?_, fun first hmem => ?_, h.sorted⟩
  · have now (k : EntityKind) : Listing.stage { s.move kind stage with store } k =
        if k = kind then stage else s.stage k := stage_move s kind k stage
    rw [now] at hother ⊢
    by_cases own : other = kind
    · subst own
      have apart : first ≠ other := fun same => Nat.lt_irrefl _ (same ▸ before)
      rw [if_neg apart]
      exact h.earlier first other before started
    · rw [if_neg own] at hother
      have was := h.earlier first other before hother
      have apart : first ≠ kind := fun same => unfinished (same ▸ was)
      rw [if_neg apart, was]
  · have was := h.ended first hmem
    have apart : first ≠ kind := fun same => unfinished (same ▸ was)
    show (s.move kind stage).stage first = .listed
    rw [stage_move, if_neg apart, was]

/-- A call begins when no other one is under way. -/
theorem Serial.start (h : Serial s) {before after : List EntityKind}
    (none_underWay : ∀ k, (s.stage k).isUnderWay = false)
    (order : EntityKind.all = before ++ kind :: after)
    (begun : ∀ earlier ∈ before, s.stage earlier ≠ .waiting) (waiting : s.stage kind = .waiting) :
    Serial (s.move kind .begun) := by
  have apart (first : EntityKind) (was : s.stage first = .listed) : first ≠ kind := by
    rintro rfl
    rw [was] at waiting
    cases waiting
  refine ⟨fun first other earlier hother => ?_, fun first hmem => ?_, h.sorted⟩
  · rw [stage_move] at hother ⊢
    by_cases own : other = kind
    · -- all earlier calls have begun, and none is under way
      subst own
      have hfirst := begun first (take_position_eq order ▸ mem_take_of_position_lt earlier)
      have stopped := none_underWay first
      rw [if_neg fun same => Nat.lt_irrefl _ (same ▸ earlier)]
      generalize s.stage first = stage at stopped hfirst ⊢
      cases stage <;> simp_all [Stage.isUnderWay]
    · rw [if_neg own] at hother
      have was := h.earlier first other earlier hother
      rw [if_neg (apart first was), was]
  · have was := h.ended first hmem
    rw [stage_move, if_neg (apart first was), was]

theorem position_injective {a b : EntityKind} (h : position a = position b) : a = b := by
  revert h
  cases a <;> cases b <;> decide

/-- A call ends after all earlier ones. -/
theorem Serial.list (h : Serial s) (kept : s.stage kind = .kept) (records : List EntityRecord) :
    Serial { s.move kind .listed with batches := s.batches ++ [(kind, records)] } := by
  have moved : Serial (s.move kind .listed) := h.move (by rw [kept]; rfl)
  have here : (s.move kind .listed).stage kind = .listed := Function.update_self _ _ _
  refine ⟨moved.earlier, fun first hmem => ?_, ?_⟩
  · rw [List.map_append, List.mem_append] at hmem
    rcases hmem with old | last
    · exact moved.ended first old
    · obtain rfl : first = kind := by simpa using last
      exact here
  · show ((s.batches ++ [(kind, records)]).map Prod.fst).Pairwise _
    rw [List.map_append, List.pairwise_append]
    refine ⟨h.sorted, List.pairwise_singleton _ _, fun first hmem last hlast => ?_⟩
    obtain rfl : last = kind := by simpa using hlast
    have was := h.ended first hmem
    by_contra later
    have apart : position last ≠ position first := fun same => by
      rw [position_injective same, was] at kept
      cases kept
    have ended := h.earlier last first (by omega) (by rw [was]; rintro ⟨⟩)
    rw [kept] at ended
    cases ended

theorem Serial.step (h : Serial s) (single : n ≤ 1) (step : Step d n project s s') : Serial s' := by
  cases step with
  | start order begun waiting room =>
    refine h.start (fun k => ?_) order begun waiting
    by_contra some_underWay
    have one : 1 ≤ s.count Stage.isUnderWay :=
      one_le_count (Bool.eq_true_of_not_eq_false some_underWay)
    omega
  | find begun => exact h.move (by rw [begun]; rfl)
  | miss begun => exact h.move (by rw [begun]; rfl)
  | read absent => exact h.move (by rw [absent]; rfl)
  | report read => exact h.move (by rw [read]; rfl)
  | keep reported => exact h.move (by rw [reported]; rfl)
  | list kept => exact h.list kept _

theorem ReachesFrom.serial (single : n ≤ 1) (h : ReachesFrom d n before project s) : Serial s := by
  induction h with
  | refl => exact serial_start _
  | tail _ step ih => exact ih.step single step

/-- When calls that do not overlap have ended, the kinds have been listed in their order. -/
theorem Serial.kinds_eq (h : Serial s) (perm : (s.batches.map Prod.fst).Perm EntityKind.all) :
    s.batches.map Prod.fst = EntityKind.all :=
  perm.eq_of_pairwise (fun _ _ _ _ before after => absurd before (Nat.lt_asymm after)) h.sorted
    (by decide)

/-! ## What the calls have done in the end -/

theorem one_le_overlappingReads (n : Nat) : 1 ≤ RecordStore.overlappingReads n :=
  Nat.le_min.2 ⟨Nat.le_max_right _ _, by decide⟩

theorem load_of_found (found : before.file? project = some file) (readers : Nat) :
    before.load d readers project = .ok before := by
  rw [RecordFolder.load, found]
  rfl

theorem projectPath_eq_ok {path : String} (h : before.projectPath project = .ok path) :
    isProjectName project = true ∧
      path = Path.join before.directory (RecordFolder.fileName project) := by
  unfold RecordFolder.projectPath at h
  split at h
  · rename_i valid
    exact ⟨valid, (Except.ok.inj h).symm⟩
  · cases h

/-- The records of a project have been listed kind by kind, and in the order of the kinds if the calls
do not overlap. -/
theorem ReachesFrom.exists_kinds {rs : List EntityRecord} (h : ReachesFrom d n before project s)
    (listed : Listed rs s) (finished : s.IsFinished) : ∃ kinds, kinds.Perm EntityKind.all ∧
      (n ≤ 1 → kinds = EntityKind.all) ∧ s.batches.flatMap Prod.snd = inKinds kinds rs :=
  have perm := listed.kinds_perm finished
  ⟨_, perm, fun single => (h.serial single).kinds_eq perm, listed.flatMap_batches⟩

/-- When all calls have ended, they have read the project with some number of readers, and have listed
its records kind by kind in some order. -/
theorem ReachesFrom.isReadBy (h : ReachesFrom d n before project s) (finished : s.IsFinished) :
    ∃ readers kinds, 1 ≤ readers ∧ readers ≤ RecordStore.overlappingReads n ∧
      kinds.Perm EntityKind.all ∧ (n ≤ 1 → kinds = EntityKind.all) ∧
      IsReadBy d before project readers kinds s := by
  cases hfile : before.file? project with
  | some file =>
    have served := h.served hfile
    obtain ⟨kinds, perm, single, records⟩ := h.exists_kinds served.listed finished
    refine ⟨1, kinds, Nat.le_refl 1, one_le_overlappingReads n, perm, single, ?_, ?_⟩
    · rw [served.store, load_of_found hfile]
    · rw [records, served.store, RecordFolder.records_of_file? hfile]
  | none =>
    by_cases readable : ∃ path content, before.projectPath project = .ok path ∧
        d.readText path = .ok content
    · obtain ⟨path, content, hpath, hread⟩ := readable
      obtain ⟨valid, rfl⟩ := projectPath_eq_ok hpath
      have invariant := h.invariant hfile hread
      obtain ⟨kinds, perm, single, records⟩ := h.exists_kinds invariant.listed finished
      cases invariant.shared with
      | absent _ _ early => exact absurd (finished .table) (early .table).2
      | @kept j store some_reported few =>
        refine ⟨j, kinds, some_reported, le_trans (Nat.le_add_right _ _) few, perm, single, ?_, ?_⟩
        · rw [store, load_of_missing hfile valid hread]
        · rw [records, store, RecordFolder.records_of_file? (file?_kept hfile content j)]
          rfl
    · have unreadable : IsUnreadable d before project := fun path content hpath hread =>
        readable ⟨path, content, hpath, hread⟩
      have stopped := (h.unread hfile unreadable).stages .table
      rw [finished .table] at stopped
      cases stopped

/-- A call that fails does so with the error that reading gives. -/
theorem Fails.load (fails : s.Fails d project e) (missing : s.store.file? project = none)
    (readers : Nat) : s.store.load d readers project = .error e := by
  unfold RecordFolder.load
  rw [missing, Option.isSome_none, if_neg Bool.false_ne_true]
  cases fails with
  | misnamed _ hpath =>
    rw [hpath]
    rfl
  | missing _ hpath hread =>
    rw [hpath]
    simp only [bind, Except.bind]
    rw [hread]
  | fault _ hpath hread other =>
    rw [hpath]
    simp only [bind, Except.bind]
    rw [hread]
    split
    · rename_i same
      exact absurd (Except.error.inj same) other
    · rename_i same
      rw [Except.error.inj same]
    · rename_i same
      cases same

/-- When the calls cannot read the project, the store is as it was, and no number of readers can. -/
theorem ReachesFrom.load_of_fails (h : ReachesFrom d n before project s)
    (fails : s.Fails d project e) :
    s.store = before ∧ ∀ readers, before.load d readers project = .error e := by
  have stopped : ∃ kind, s.stage kind = .absent := by
    cases fails with
    | misnamed absent => exact ⟨_, absent⟩
    | missing absent => exact ⟨_, absent⟩
    | fault absent => exact ⟨_, absent⟩
  obtain ⟨kind, absent⟩ := stopped
  cases hfile : before.file? project with
  | some file =>
    have served := (h.served hfile).stages kind
    rw [absent] at served
    cases served
  | none =>
    have unreadable : IsUnreadable d before project := by
      intro path content hpath hread
      obtain ⟨valid, rfl⟩ := projectPath_eq_ok hpath
      have place := (h.invariant hfile hread).shared.directory_eq
      have same : s.store.projectPath project = before.projectPath project := by
        unfold RecordFolder.projectPath
        rw [place]
      cases fails with
      | misnamed _ hpath' =>
        rw [same, hpath] at hpath'
        cases hpath'
      | missing _ hpath' hread' | fault _ hpath' hread' =>
        rw [same, hpath] at hpath'
        cases hpath'
        rw [hread] at hread'
        cases hread'
    have store := (h.unread hfile unreadable).store
    exact ⟨store, fun readers => store ▸ fails.load (by rw [store, hfile]) readers⟩

/-! ## What the calls can do -/

/-- One call after another lists the records of a project that is kept: the first `j` calls have
ended. -/
def served (before : RecordFolder) (file : ProjectFile) (j : Nat) : Listing where
  store := before
  stage kind := if position kind < j then .listed else .waiting
  batches := (EntityKind.all.take j).map fun kind => (kind, file.records.filter (·.kind = kind))

theorem reaches_served (found : before.file? project = some file) {j : Nat}
    (hj : j ≤ EntityKind.all.length) :
    ReachesFrom d n before project (served before file j) := by
  induction j with
  | zero => exact .refl
  | succ j ih =>
    obtain ⟨kind, rfl⟩ := exists_position hj
    have stage (k : EntityKind) : (served before file (position kind)).stage k =
        if position k < position kind then .listed else .waiting := rfl
    have begun : ∀ earlier ∈ EntityKind.all.take (position kind),
        (served before file (position kind)).stage earlier ≠ .waiting := by
      intro earlier hmem
      rw [stage, if_pos (position_lt_of_mem_take hmem)]
      decide
    have room : (served before file (position kind)).count Stage.isUnderWay = 0 := by
      refine List.countP_eq_zero.2 fun other _ => ?_
      rw [stage]
      split <;> decide
    have waiting : (served before file (position kind)).stage kind = .waiting := by
      rw [stage, if_neg (Nat.lt_irrefl _)]
    have kept : ((served before file (position kind)).store.file? project).isSome = true := by
      show (before.file? project).isSome = true
      rw [found]
      rfl
    have steps := steps_of_waiting (d := d) (n := n) (all_eq_take_append kind) begun waiting
      (by omega) kept
    have next : served before file (position kind + 1) =
        { served before file (position kind) with
          stage := Function.update (served before file (position kind)).stage kind .listed
          batches := (served before file (position kind)).batches ++
            [(kind, (before.records project).filter (·.kind = kind))] } := by
      unfold served
      rw [take_position_succ, List.map_append, RecordFolder.records_of_file? found]
      congr 1
      funext other
      simp only [Function.update_apply, position_lt_succ_iff]
      by_cases own : other = kind <;> simp [own]
    rw [next]
    exact Relation.ReflTransGen.trans (ih (Nat.le_of_succ_le hj)) steps

/-- If the project can be read, each number of readers is possible, up to that of the calls that may
overlap, with the kinds in their order. -/
theorem exists_isReadBy {after : RecordFolder} (h : before.load d 1 project = .ok after)
    {readers : Nat} (some_reader : 1 ≤ readers) (few : readers ≤ RecordStore.overlappingReads n) :
    ∃ s, ReachesFrom d n before project s ∧ s.IsFinished ∧
      IsReadBy d before project readers EntityKind.all s := by
  cases hfile : before.file? project with
  | some file =>
    refine ⟨served before file EntityKind.all.length, reaches_served hfile (Nat.le_refl _),
      fun kind => if_pos (position_lt kind), load_of_found hfile readers, ?_⟩
    show _ = inKinds _ (before.records project)
    rw [RecordFolder.records_of_file? hfile]
    rfl
  | none =>
    rcases RecordFolder.keepsMore_of_load h with ⟨-, file, found⟩ | ⟨new, rfl, more⟩
    · rw [hfile] at found
      cases found
    · obtain ⟨content, hread, -⟩ := more.read
      refine ⟨ended before new.project content readers,
        reaches_inTurn hfile more.named hread some_reader few (Nat.le_refl _),
        isFinished_ended _ _ _ _, ?_, ?_⟩
      · rw [store_ended _ _ _ few, load_of_missing hfile more.named hread]
      · rw [store_ended _ _ _ few, flatMap_batches_ended,
          RecordFolder.records_of_file? (file?_kept hfile content readers)]
        rfl

/-- If the project cannot be read, the first call fails. -/
theorem exists_fails (h : before.load d 1 project = .error e) :
    ∃ s, ReachesFrom d n before project s ∧ s.Fails d project e := by
  have missing : before.file? project = none := by
    cases hfile : before.file? project with
    | none => rfl
    | some file =>
      rw [load_of_found hfile] at h
      cases h
  have first : EntityKind.all = [] ++ .table :: [.classDef, .procedure, .page] := rfl
  have begins : Step d n project { store := before }
      (({ store := before } : Listing).move .table .begun) :=
    .start first nofun rfl (Nat.lt_of_lt_of_le Nat.zero_lt_one (Nat.le_max_right _ _))
  have misses : Step d n project (({ store := before } : Listing).move .table .begun)
      ((({ store := before } : Listing).move .table .begun).move .table .absent) :=
    .miss (stage_move_self _ _ _) missing
  refine ⟨_, (Relation.ReflTransGen.single begins).tail misses, ?_⟩
  have absent : ((({ store := before } : Listing).move .table .begun).move .table .absent).stage
      .table = .absent := stage_move_self _ _ _
  rw [RecordFolder.load, missing, Option.isSome_none, if_neg Bool.false_ne_true] at h
  cases hpath : before.projectPath project with
  | error fault =>
    rw [hpath] at h
    cases h
    exact .misnamed absent hpath
  | ok path =>
    rw [hpath] at h
    simp only [bind, Except.bind] at h
    split at h
    · rename_i hread
      cases h
      exact .missing absent hpath hread
    · rename_i fault other hread
      cases h
      exact .fault absent hpath hread other
    · cases h

end Listing

end LayerGraph
