import LayerGraph.CommandLine
import LayerGraph.Proofs.CopiedGraph
import LayerGraph.Proofs.ShortestPaths

/-!
# Missing connections and the limit on hops

The command that prints connections says that there is none within a number of hops. It takes that
number from its arguments, whereas the query behind it goes no further than the configured limit. So
what it says is true up to this limit, and past it the command may deny a connection that it has not
looked for.

Main statements:
1. `GraphStore.connection_eq_noPath_iff`: when a query finds no connection.
2. `Settings.fault?_of_loadSettings`: settings that were read have passed their check.
3. `connectionText_eq_noPathText_iff`: no other outcome is printed as a missing connection is.
4. `CommandLine.noPathText_printed_iff`: when a connection is denied, and when wrongly.
-/

namespace LayerGraph

variable {m : StoredGraph} {a b : NodeKey} {n : Nat}

/-! ## Connected nodes -/

/-- Both keys are stored, and at most so many stored edges lead from one to the other, in whichever
directions the edges run. -/
def StoredGraph.Connects (m : StoredGraph) (hops : Nat) (a b : NodeKey) : Prop :=
  a ∈ m.keys ∧ b ∈ m.keys ∧ ∃ d ≤ hops, Steps m.Linked d a b

/-- A mirror of a graph that was built holds no keys with blank names. -/
theorem Sync.Mirrors.readable {run : String} {g : Graph} (h : Sync.Mirrors run g m)
    (hg : Build.IsBuilt g) : m.Readable where
  nodes k hk := hg.isReadable (h.mem_keys.1 hk)
  edges e he := by
    have joins : g.Depends e.source e.target := ⟨e, h.mem_edgeList.1 he, rfl, rfl⟩
    obtain ⟨hsource, htarget⟩ := hg.wellFormed.depends_mem joins
    exact ⟨hg.isReadable hsource, hg.isReadable htarget⟩

theorem StoredGraph.Connects.mono {low high : Nat} (h : m.Connects low a b) (hle : low ≤ high) :
    m.Connects high a b := by
  obtain ⟨ha, hb, d, hd, steps⟩ := h
  exact ⟨ha, hb, d, hd.trans hle, steps⟩

/-- Between a lower bound on hops and a higher one there is a connection when the distance is. -/
theorem StoredGraph.not_connects_and_connects_iff {low high : Nat} :
    ¬ m.Connects low a b ∧ m.Connects high a b ↔
      a ∈ m.keys ∧ b ∈ m.keys ∧ ∃ d, low < d ∧ d ≤ high ∧ Distance m.Linked a b d := by
  constructor
  · rintro ⟨apart, ha, hb, i, hi, steps⟩
    obtain ⟨d, hd, hdist⟩ := exists_distance steps
    refine ⟨ha, hb, d, Nat.lt_of_not_le fun near => ?_, hd.trans hi, hdist⟩
    exact apart ⟨ha, hb, d, near, hdist.steps⟩
  · rintro ⟨ha, hb, d, far, hd, hdist⟩
    refine ⟨?_, ha, hb, d, hd, hdist.steps⟩
    rintro ⟨-, -, i, hi, steps⟩
    exact absurd ((hdist.le steps).trans hi) (Nat.not_le.2 far)

/-- No connection is found just when there is none within the hops that are applied. -/
theorem GraphStore.connection_eq_noPath_iff {s : GraphStore} {disk : Disk} {limits : QueryLimits}
    (readable : m.Readable) (answers : s.Answers disk limits.timeout [.ping, .shortestPaths] m)
    (maxHops : Nat) : (s.connection disk limits a b maxHops).1 = .noPath ↔
      ¬ m.Connects (Query.clamp maxHops limits.maxHops) a b := by
  rw [answers.connection]
  constructor
  · rintro denied ⟨ha, hb, n, hn, steps⟩
    obtain ⟨d, hd, hdist⟩ := exists_distance steps
    obtain ⟨c, hc, -⟩ := exists_connection? readable ha hb (hd.trans hn) hdist
    rw [hc] at denied
    cases denied
  · intro apart
    rw [connection?_eq_none]
    · rfl
    · rintro ⟨ha, hb, d, hd, hdist⟩
      exact apart ⟨ha, hb, d, hd, hdist.steps⟩

/-! ## Settings that were read -/

theorem mapError_eq_ok_iff {ε ε' α : Type} {x : Except ε α} {f : ε → ε'} {v : α} :
    x.mapError f = .ok v ↔ x = .ok v := by
  cases x with
  | error e => exact ⟨nofun, nofun⟩
  | ok w => simp only [Except.mapError, Except.ok.injEq]

namespace Settings

variable {disk : Disk} {settings : Settings}

theorem fault?_of_ofText {text : String} (h : ofText text = .ok settings) :
    settings.fault? = none := by
  unfold ofText at h
  split at h
  · cases h
  · split at h
    · cases h
    · next sound =>
      cases h
      exact sound

theorem fault?_of_load {path : String} (h : load disk path = .ok settings) :
    settings.fault? = none := by
  unfold load at h
  cases hread : (disk.readText path).mapError Error.file with
  | error e =>
    rw [hread] at h
    cases h
  | ok text =>
    rw [hread] at h
    have parsed : (ofText text).mapError Error.settings = .ok settings := h
    exact fault?_of_ofText (mapError_eq_ok_iff.1 parsed)

theorem fault?_of_loadOrDefault {path : String} (h : loadOrDefault disk path = .ok settings) :
    settings.fault? = none := by
  unfold loadOrDefault at h
  cases hthere : (disk.contains path).mapError Error.file with
  | error e =>
    rw [hthere] at h
    cases h
  | ok isThere =>
    rw [hthere] at h
    cases isThere with
    | true => exact fault?_of_load h
    | false =>
      cases h
      rfl

/-- The settings that a command works with have passed their check, those of no file among them. -/
theorem fault?_of_loadSettings {path : Option String}
    (h : CommandLine.loadSettings disk path = .ok settings) : settings.fault? = none := by
  cases path with
  | none => exact fault?_of_loadOrDefault (mapError_eq_ok_iff.1 h)
  | some path => exact fault?_of_load (mapError_eq_ok_iff.1 h)

/-- No limit is zero in settings that have passed their check. -/
theorem limits_pos (h : settings.fault? = none) : ∀ l ∈ settings.limits, 0 < l.2 := by
  intro l hl
  unfold fault? at h
  obtain ⟨zero, -⟩ := (Option.orElse_eq_none _ _).1 h
  rw [Option.map_eq_none_iff, List.find?_eq_none] at zero
  exact Nat.pos_of_ne_zero fun hzero => zero l hl (decide_eq_true hzero)

theorem maxHops_pos (h : settings.fault? = none) : 0 < settings.query.maxHops :=
  limits_pos h ("query.max-hops", settings.query.maxHops) (by simp [limits])

end Settings

theorem Query.clamp_eq_min {limit : Nat} (hlimit : 0 < limit) :
    clamp n limit = min (max 1 n) limit := by
  unfold clamp
  omega

/-! ## What is printed -/

namespace CommandLine

/-- The answer that there is no connection. -/
def noPathText (a b : NodeKey) (hops : Nat) : String :=
  ofLines [s!"No path between {a.text} and {b.text} within {hops} hops."]

theorem toList_ofLines_cons (line : String) (lines : List String) :
    (ofLines (line :: lines)).toList = line.toList ++ '\n' :: (ofLines lines).toList := by
  unfold ofLines
  rw [List.map_cons, String.join_cons, String.toList_append, String.toList_append]
  simp

theorem head?_noPathText : (noPathText a b n).toList.head? = some 'N' := by
  unfold noPathText
  rw [toList_ofLines_cons]
  simp [String.toList_append, toString]

theorem head?_connectionLines (c : Connection) :
    (ofLines (connectionLines c)).toList.head? = some 'S' := by
  unfold connectionLines
  rw [toList_ofLines_cons]
  simp [String.toList_append, toString]

theorem head?_unavailableLines (reason : Unavailable) :
    (ofLines (unavailableLines reason)).toList.head? = some 'u' := by
  unfold unavailableLines
  rw [toList_ofLines_cons]
  simp [String.toList_append, toString]

theorem head?_pretty_obj (members : List (String × Json.Value)) :
    (Json.Value.obj members).pretty.toList.head? = some '\x7b' := by
  cases members with
  | nil => rfl
  | cons m rest => simp [Json.Value.pretty, Json.Value.prettyAt]

/-- What is printed for the outcome of a query for connections. -/
def connectionText (json : Bool) (a b : NodeKey) (hops : Nat) (outcome : QueryOutcome Connection) :
    String :=
  printed json (outcome.toJson Connection.toJson) (outcomeLines connectionLines
    [s!"No path between {a.text} and {b.text} within {hops} hops."] outcome)

/-- No other outcome is printed like this one: each begins with a letter of its own. -/
theorem connectionText_eq_noPathText_iff {json : Bool} {outcome : QueryOutcome Connection} :
    connectionText json a b n outcome = noPathText a b n ↔ json = false ∧ outcome = .noPath := by
  have differs {text : String} {c : Char} (head : text.toList.head? = some c) (hc : c ≠ 'N') :
      text ≠ noPathText a b n := by
    rintro rfl
    exact hc (Option.some.inj (head.symm.trans head?_noPathText))
  unfold connectionText printed
  cases json with
  | true =>
    refine iff_of_false (differs (c := '\x7b') ?_ (by decide)) (fun h => nomatch h.1)
    have opens : (outcome.toJson Connection.toJson).pretty.toList.head? = some '\x7b' := by
      cases outcome with
      | available c => exact head?_pretty_obj _
      | noPath => exact head?_pretty_obj _
      | unavailable reason => exact head?_pretty_obj _
    rw [if_pos rfl, String.toList_append, List.head?_append, opens]
    rfl
  | false =>
    rw [if_neg Bool.false_ne_true]
    cases outcome with
    | available c =>
      exact iff_of_false (differs (head?_connectionLines c) (by decide)) (fun h => nomatch h.2)
    | noPath => exact iff_of_true rfl ⟨rfl, rfl⟩
    | unavailable reason =>
      exact iff_of_false (differs (head?_unavailableLines reason) (by decide)) (fun h => nomatch h.2)

/-! ## Runs of the command -/

variable {disk : Disk} {settings : Settings} {arguments : List String} {settingsPath : Option String}
  {json : Bool} {sourceText targetText : String}

/-- What a command line prints that asks for connections. -/
theorem stdout_run_connect
    (asked : Request.ofArguments arguments =
      .run ⟨settingsPath, json, .connect sourceText targetText n⟩)
    (loaded : loadSettings disk settingsPath = .ok settings)
    (ha : NodeKey.ofText sourceText = .ok a) (hb : NodeKey.ofText targetText = .ok b)
    (run : String) : (CommandLine.run disk run arguments).1.stdout =
      connectionText json a b n ((GraphStore.ofName settings.graphStore.path).connection disk
        settings.queryLimits a b n).1 := by
  have hkey {text : String} {k : NodeKey} (h : NodeKey.ofText text = .ok k) : keyOf text = .ok k :=
    mapError_eq_ok_iff.2 h
  unfold CommandLine.run
  rw [asked]
  dsimp only
  unfold Invocation.run
  dsimp only
  rw [if_neg nofun, loaded]
  dsimp only
  unfold execute
  dsimp only
  rw [hkey ha, hkey hb]
  rfl

/-- A run of the command denies a connection just when there is none within the limit. It does so
wrongly when the nodes are further apart than the limit, but not than was asked for. -/
theorem noPathText_printed_iff {g : Graph} {copy : String} (hg : Build.IsBuilt g)
    (copied : Sync.Copied copy g m)
    (asked : Request.ofArguments arguments =
      .run ⟨settingsPath, json, .connect sourceText targetText n⟩)
    (loaded : loadSettings disk settingsPath = .ok settings)
    (ha : NodeKey.ofText sourceText = .ok a) (hb : NodeKey.ofText targetText = .ok b)
    (answers : (GraphStore.ofName settings.graphStore.path).Answers disk settings.timeout
      [.ping, .shortestPaths] m) (run : String) :
    let stdout := (CommandLine.run disk run arguments).1.stdout
    let limit := settings.query.maxHops
    (stdout = noPathText a b n ↔
      json = false ∧ ¬ m.Connects (min (max 1 n) limit) a b) ∧
    (stdout = noPathText a b n ∧ m.Connects n a b ↔
      json = false ∧ a ∈ m.keys ∧ b ∈ m.keys ∧
        ∃ d, limit < d ∧ d ≤ n ∧ Distance m.Linked a b d) := by
  intro stdout limit
  have readable := (copied.mirrors hg.wellFormed).readable hg
  have positive : 0 < limit := Settings.maxHops_pos (Settings.fault?_of_loadSettings loaded)
  have denied : stdout = noPathText a b n ↔
      json = false ∧ ¬ m.Connects (min (max 1 n) limit) a b := by
    rw [show stdout = _ from stdout_run_connect asked loaded ha hb run,
      connectionText_eq_noPathText_iff, GraphStore.connection_eq_noPath_iff readable answers,
      ← Query.clamp_eq_min positive]
    rfl
  refine ⟨denied, ?_⟩
  rw [denied, and_assoc, StoredGraph.not_connects_and_connects_iff]
  refine and_congr_right fun _ => and_congr_right fun _ => and_congr_right fun _ => ?_
  -- what is within the hops that were asked for can only be beyond the limit
  refine exists_congr fun d => ?_
  rw [← and_assoc, ← and_assoc]
  refine and_congr_left fun _ => ?_
  omega

/-- Three classes, of which each but the last uses the next one. -/
def chainGraph : Graph where
  nodes := [⟨⟨.classDef, "A"⟩, 0⟩, ⟨⟨.classDef, "B"⟩, 0⟩, ⟨⟨.classDef, "C"⟩, 0⟩]
  edges := [⟨⟨.classDef, "A"⟩, ⟨.classDef, "B"⟩, .usesClass⟩,
    ⟨⟨.classDef, "B"⟩, ⟨.classDef, "C"⟩, .usesClass⟩]

theorem isBuilt_chainGraph : Build.IsBuilt chainGraph := by
  have declared : Build.declarations
      [{ kind := .classDef, name := "A", usesClasses := ["B"] },
        { kind := .classDef, name := "B", usesClasses := ["C"] }, { kind := .classDef, name := "C" }] =
      [{ key := ⟨.classDef, "A"⟩, classes := ["B"] }, { key := ⟨.classDef, "B"⟩, classes := ["C"] },
        { key := ⟨.classDef, "C"⟩ }] := by cbv
  exact Build.isBuilt_of_declarations declared (fun _ => some 0) (by rfl)

/-- A copy of this graph. -/
def chainCopy : StoredGraph where
  nodes := chainGraph.nodes.map (⟨·, "run"⟩)
  edges := chainGraph.edges.map (⟨·, "run"⟩)

theorem copied_chainCopy : Sync.Copied "run" chainGraph chainCopy := by
  have leaves : GraphStore.sync { place := .memory {} } {} {} "run" chainGraph =
      ({ run := "run", nodesSynced := 3, edgesSynced := 2 }, { place := .memory chainCopy }, {}) := by
    cbv
  exact (GraphStore.answers_copy leaves rfl [] ({} : QueryLimits).timeout).1

theorem connects_chainCopy : chainCopy.Connects 2 ⟨.classDef, "A"⟩ ⟨.classDef, "C"⟩ := by
  have first : chainCopy.Linked ⟨.classDef, "A"⟩ ⟨.classDef, "B"⟩ :=
    ⟨⟨⟨.classDef, "A"⟩, ⟨.classDef, "B"⟩, .usesClass⟩, by decide, .inl ⟨rfl, rfl⟩⟩
  have second : chainCopy.Linked ⟨.classDef, "B"⟩ ⟨.classDef, "C"⟩ :=
    ⟨⟨⟨.classDef, "B"⟩, ⟨.classDef, "C"⟩, .usesClass⟩, by decide, .inl ⟨rfl, rfl⟩⟩
  exact ⟨by decide, by decide, 2, Nat.le_refl 2, .head first (.head second (.refl _))⟩

/-- Settings that allow one hop. -/
def oneHop : Settings where
  query := { maxHops := 1 }

/-- A working directory with these settings and this copy. -/
def chainDisk : Disk where
  entries := [([Text.octets "stratum.yaml"], .file "query:\n  max-hops: 1\n".toUTF8),
    ([Text.octets ".stratum"], .directory),
    ([Text.octets ".stratum", Text.octets "graph.db"], .database chainCopy true)]

theorem loadSettings_chainDisk : loadSettings chainDisk none = .ok oneHop := by cbv

theorem answers_chainDisk (calls : List StoreCall) :
    (GraphStore.ofName oneHop.graphStore.path).Answers chainDisk oneHop.timeout calls chainCopy where
  faultless _ _ := rfl
  connects := ⟨_, _, by cbv, by cbv⟩

/-- The two ends of the chain are rightly said not to be connected within one hop, and wrongly not to
be within three. -/
theorem noPathText_printed_iff_chain :
    let a : NodeKey := ⟨.classDef, "A"⟩
    let c : NodeKey := ⟨.classDef, "C"⟩
    let stdout (hops : String) : String :=
      (CommandLine.run chainDisk "id" ["path", "Class:A", "Class:C", "--max-hops", hops]).1.stdout
    loadSettings chainDisk none = .ok oneHop ∧ Sync.Copied "run" chainGraph chainCopy ∧
      stdout "1" = noPathText a c 1 ∧ ¬ chainCopy.Connects 1 a c ∧
      stdout "3" = noPathText a c 3 ∧ chainCopy.Connects 3 a c := by
  intro a c stdout
  have ha : NodeKey.ofText "Class:A" = .ok a := by cbv
  have hc : NodeKey.ofText "Class:C" = .ok c := by cbv
  have asked₁ : Request.ofArguments ["path", "Class:A", "Class:C", "--max-hops", "1"] =
      .run ⟨none, false, .connect "Class:A" "Class:C" 1⟩ := by cbv
  have asked₃ : Request.ofArguments ["path", "Class:A", "Class:C", "--max-hops", "3"] =
      .run ⟨none, false, .connect "Class:A" "Class:C" 3⟩ := by cbv
  have one := noPathText_printed_iff isBuilt_chainGraph copied_chainCopy asked₁ loadSettings_chainDisk
    ha hc (answers_chainDisk _) "id"
  have three := noPathText_printed_iff isBuilt_chainGraph copied_chainCopy asked₃
    loadSettings_chainDisk ha hc (answers_chainDisk _) "id"
  have none_found : Query.connection? oneHop.queryLimits chainCopy a c 1 = none := by cbv
  have denied : stdout "1" = noPathText a c 1 := by
    show (CommandLine.run _ _ _).1.stdout = _
    rw [stdout_run_connect asked₁ loadSettings_chainDisk ha hc, connectionText_eq_noPathText_iff,
      (answers_chainDisk _).connection, none_found]
    exact ⟨rfl, rfl⟩
  have apart : ¬ chainCopy.Connects 1 a c := (one.1.1 denied).2
  exact ⟨loadSettings_chainDisk, copied_chainCopy, denied, apart, three.1.2 ⟨rfl, apart⟩,
    connects_chainCopy.mono (by decide)⟩

/-- The two ends of the chain are denied a connection within two hops, and have one. -/
theorem connection_denied :
    let a : NodeKey := ⟨.classDef, "A"⟩
    let c : NodeKey := ⟨.classDef, "C"⟩
    Build.IsBuilt chainGraph ∧ Sync.Copied "run" chainGraph chainCopy ∧
      loadSettings chainDisk none = .ok oneHop ∧
      (GraphStore.ofName oneHop.graphStore.path).Answers chainDisk oneHop.timeout
        [.ping, .shortestPaths] chainCopy ∧
      (CommandLine.run chainDisk "id" ["path", "Class:A", "Class:C", "--max-hops", "2"]).1.stdout =
        "No path between Class:A and Class:C within 2 hops.\n" ∧
      chainCopy.Connects 2 a c := by
  intro a c
  have ha : NodeKey.ofText "Class:A" = .ok a := by cbv
  have hc : NodeKey.ofText "Class:C" = .ok c := by cbv
  have asked : Request.ofArguments ["path", "Class:A", "Class:C", "--max-hops", "2"] =
      .run ⟨none, false, .connect "Class:A" "Class:C" 2⟩ := by cbv
  have none_found : Query.connection? oneHop.queryLimits chainCopy a c 2 = none := by cbv
  have text : connectionText false a c 2 .noPath =
      "No path between Class:A and Class:C within 2 hops.\n" := by cbv
  refine ⟨isBuilt_chainGraph, copied_chainCopy, loadSettings_chainDisk, answers_chainDisk _, ?_,
    connects_chainCopy⟩
  rw [stdout_run_connect asked loadSettings_chainDisk ha hc, (answers_chainDisk _).connection,
    none_found]
  exact text

end CommandLine

end LayerGraph
