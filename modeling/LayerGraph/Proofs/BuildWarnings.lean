import LayerGraph.Proofs.CarriedOrders

/-!
# What a build warns about

A build warns about each record without a name, about each key that several records share, and about
each edge to an unresolved name, and about nothing else. References that lead to one edge, be it
because a name is repeated or because it is written with other blanks around it, have one warning
together.

The edges of a graph that is built are in the order of the declarations, so those of one source stand
together and the sources ascend. The warnings about edges are in the same order.

Main statements:
1. `sublist_foldl_addLink`, `pairwise_sources`: the order of the edges.
2. `mem_sharedKeys`: the keys that several records share.
3. `external_iff`: unresolved names are there because of the edges to them.
4. `warnings_exact`: all warnings, and what they say about the nodes.
-/

namespace LayerGraph.Build

variable {rs : List EntityRecord} {k : NodeKey} {e e' : Edge}

/-! ## The order of the edges -/

theorem sublist_addEdge (g : Graph) (e : Edge) : (g.addEdge e).2.edges.Sublist (g.edges ++ [e]) := by
  unfold Graph.addEdge
  split
  · exact List.sublist_append_left _ _
  split
  · exact List.sublist_append_left _ _
  split
  · exact List.sublist_append_left _ _
  · exact List.Sublist.refl _

/-- Resolving a link adds an edge of its source behind all others, or none. -/
theorem sublist_addLink (out : BuildOutput) (l : Link) :
    ((addLink out l).graph.edges.map Edge.source).Sublist
      (out.graph.edges.map Edge.source ++ [l.source]) := by
  have local_end := (sublist_addEdge out.graph ⟨l.source, localKey l, l.kind⟩).map Edge.source
  have external_end := (sublist_addEdge (out.graph.addNode (externalKey l)).2
    ⟨l.source, externalKey l, l.kind⟩).map Edge.source
  rw [List.map_append] at local_end external_end
  rw [Graph.edges_addNode] at external_end
  unfold addLink
  split
  · exact List.sublist_append_left _ _
  split
  · exact local_end
  · dsimp only
    split
    · next added => rw [added] at external_end; exact external_end
    · next other => rw [other] at external_end; exact external_end

theorem sublist_foldl_addLink (links : List Link) (out : BuildOutput) :
    ((links.foldl addLink out).graph.edges.map Edge.source).Sublist
      (out.graph.edges.map Edge.source ++ links.map Link.source) := by
  induction links generalizing out with
  | nil => simp
  | cons l rest ih =>
    rw [List.foldl_cons, List.map_cons, List.append_cons]
    exact (ih _).trans ((sublist_addLink out l).append_right _)

/-- The links of declarations whose keys ascend have ascending sources. -/
theorem pairwise_links {ds : List Declaration}
    (ascending : Sorted.Ascending (ds.map Declaration.key)) :
    ((ds.flatMap Declaration.links).map Link.source).Pairwise fun a b => Sorted.le a b = true := by
  rw [List.pairwise_map, List.pairwise_flatMap]
  have own : ∀ d : Declaration, ∀ l ∈ d.links, l.source = d.key :=
    fun d l hl => (Declaration.mem_links.1 hl).1
  refine ⟨fun d _ => List.pairwise_of_forall_mem_list fun l hl l' hl' => ?_, ?_⟩
  · rw [own d l hl, own d l' hl']
    exact Std.ReflCmp.isLE_rfl
  · refine (List.pairwise_map.1 ascending).imp fun {d d'} lower l hl l' hl' => ?_
    rw [own d l hl, own d' l' hl', Sorted.le, lower]
    rfl

theorem ascending_keys_declarations (rs : List EntityRecord) :
    Sorted.Ascending ((declarations rs).map Declaration.key) := by
  have keys : (declarations rs).map Declaration.key = Sorted.distinct (namedKeys rs) := by
    unfold declarations
    rw [List.map_map]
    exact (List.map_congr_left fun k _ => key_ofRecords k _).trans (List.map_id _)
  rw [keys]
  exact Sorted.pairwise_distinct _

/-- The sources of the edges ascend. -/
theorem pairwise_sources (rs : List EntityRecord) : (ofRecords rs).graph.edges.Pairwise
    fun e e' => Sorted.le e.source e'.source = true := by
  have sources := sublist_foldl_addLink ((declarations rs).flatMap Declaration.links)
    { graph := nodesOf (declarations rs), warnings := unnamedWarnings rs ++ duplicateWarnings rs }
  rw [(nodesOf_spec (declarations rs)).1, List.map_nil, List.nil_append] at sources
  rw [ofRecords_eq]
  exact List.pairwise_map.1 ((pairwise_links (ascending_keys_declarations rs)).sublist sources)

/-! ## Records without a name, and keys that several records share -/

theorem unnamedWarnings_eq (rs : List EntityRecord) : unnamedWarnings rs =
    (rs.filter fun r => Text.trim r.name = "").map fun r => .unnamedRecord r.kind := by
  unfold unnamedWarnings
  refine congrArg (fun test => (rs.filter test).map _) (funext fun r => ?_)
  rw [Bool.eq_iff_iff, decide_eq_true_iff, Bool.not_eq_true', ← Bool.not_eq_true, isNamed_iff,
    Decidable.not_not]
  rfl

theorem ascending_sharedKeys (rs : List EntityRecord) : Sorted.Ascending (sharedKeys rs) :=
  (Sorted.pairwise_distinct _).filter _

theorem mem_sharedKeys : k ∈ sharedKeys rs ↔
    2 ≤ rs.countP fun r => Text.trim r.name ≠ "" ∧ r.key = k := by
  have counted : (namedKeys rs).count k =
      rs.countP fun r => Text.trim r.name ≠ "" ∧ r.key = k := by
    rw [namedKeys, List.count, List.countP_map, List.countP_filter]
    refine congrArg (List.countP · rs) (funext fun r => ?_)
    rw [Bool.eq_iff_iff, Bool.and_eq_true, isNamed_iff, decide_eq_true_iff, Function.comp_apply,
      beq_iff_eq, and_comm]
    rfl
  rw [Merged.mem_sharedKeys_iff_count, counted]
  rfl

/-! ## Edges to unresolved names -/

theorem key_eq_of_isExternal (h : k.isExternal = true) : k = ⟨.external, k.name⟩ := by
  obtain ⟨type, name⟩ := k
  obtain rfl : type = .external := of_decide_eq_true h
  rfl

/-- Edges to different unresolved names, of different kinds or from different sources have different
warnings. -/
theorem unresolved_inj (h : e.target.isExternal = true) (h' : e'.target.isExternal = true)
    (same : unresolved e = unresolved e') : e = e' := by
  obtain ⟨sources, names, kinds⟩ := BuildWarning.unresolvedReference.inj same
  have targets : e.target = e'.target := by
    rw [key_eq_of_isExternal h, key_eq_of_isExternal h', names]
  exact edge_eq_iff.2 ⟨sources, kinds, targets⟩

/-- What an edge to an unresolved name comes from. -/
theorem exists_refers (he : e ∈ (ofRecords rs).graph.edges)
    (external : e.target.isExternal = true) : ∃ target, Refers rs e.source e.kind target ∧
      ¬ Declares rs ⟨e.kind.targetType, Text.trim target⟩ ∧
      e.target = ⟨.external, Text.trim target⟩ := by
  obtain ⟨target, refers, ⟨declares, same⟩ | ⟨declares, same⟩⟩ := (mem_edges_ofRecords rs e).1 he
  · rw [same, declares.not_external] at external
    cases external
  · exact ⟨target, refers, declares, same⟩

/-- An unresolved name is a node because of an edge to it. -/
theorem external_iff (hk : k ∈ (ofRecords rs).graph.keys) : k.isExternal = true ↔
    ∃ e ∈ (ofRecords rs).graph.edges, e.target.isExternal = true ∧ e.target = k := by
  constructor
  · intro external
    obtain declares | ⟨source, kind, target, refers, undeclared, rfl⟩ :=
      (mem_keys_ofRecords rs k).1 hk
    · rw [declares.not_external] at external
      cases external
    · have there := (mem_edges_ofRecords rs ⟨source, _, kind⟩).2
        ⟨target, refers, .inr ⟨undeclared, rfl⟩⟩
      exact ⟨_, there, external, rfl⟩
  · rintro ⟨e, -, external, rfl⟩
    exact external

/-! ## All warnings -/

/-- The warnings of a build account for its records and for its graph. `shared` are the keys that
several records share, `dangling` the edges to unresolved names. -/
structure Accounts (rs : List EntityRecord) (out : BuildOutput) (shared : List NodeKey)
    (dangling : List Edge) : Prop where
  warnings : out.warnings =
    ((rs.filter fun r => Text.trim r.name = "").map fun r => .unnamedRecord r.kind) ++
      shared.map .duplicateRecord ++
      dangling.map fun e => .unresolvedReference e.source e.target.name e.kind
  /-- Each shared key is told once, and in key order. -/
  shared_ascending : Sorted.Ascending shared
  mem_shared : ∀ k, k ∈ shared ↔ 2 ≤ rs.countP fun r => Text.trim r.name ≠ "" ∧ r.key = k
  /-- The edges that are told of are those to unresolved names, each once. -/
  dangling_nodup : dangling.Nodup
  mem_dangling : ∀ e, e ∈ dangling ↔ e ∈ out.graph.edges ∧ e.target.isExternal = true
  /-- No two of them have the same warning. -/
  told_apart : ∀ e ∈ dangling, ∀ e' ∈ dangling,
    e.source = e'.source → e.target.name = e'.target.name → e.kind = e'.kind → e = e'
  /-- The name that is told is the name that a record refers to, without the blanks around it. -/
  names : ∀ e ∈ dangling, ∃ target, Refers rs e.source e.kind target ∧
    e.target.name = Text.trim target
  /-- What is told of one source stands together, and the sources are in key order. -/
  sources : dangling.Pairwise fun e e' => Sorted.le e.source e'.source = true
  external : ∀ k ∈ out.graph.keys, k.isExternal = true ↔ ∃ e ∈ dangling, e.target = k

/-- A build warns about the records without a name, in their order, then about the keys that several
records share, in key order, and then about the edges to unresolved names, by their sources. A node
stands for an unresolved name just if one of these edges leads to it. -/
theorem warnings_exact (rs : List EntityRecord) :
    ∃ shared dangling, Accounts rs (ofRecords rs) shared dangling := by
  have mem_dangling : ∀ e, e ∈ (ofRecords rs).graph.edges.filter (·.target.isExternal) ↔
      e ∈ (ofRecords rs).graph.edges ∧ e.target.isExternal = true := fun e => List.mem_filter
  refine ⟨sharedKeys rs, (ofRecords rs).graph.edges.filter (·.target.isExternal), ?_⟩
  constructor
  case warnings =>
    rw [(resolved_ofRecords rs).warnings, unnamedWarnings_eq]
    rfl
  case shared_ascending => exact ascending_sharedKeys rs
  case mem_shared => exact fun k => mem_sharedKeys
  case dangling_nodup => exact (reachable_ofRecords rs).wellFormed.edges_nodup.filter _
  case mem_dangling => exact mem_dangling
  case told_apart =>
    intro e he e' he' sources names kinds
    refine unresolved_inj ((mem_dangling e).1 he).2 ((mem_dangling e').1 he').2 ?_
    rw [unresolved, unresolved, sources, names, kinds]
  case names =>
    intro e he
    obtain ⟨present, external⟩ := (mem_dangling e).1 he
    obtain ⟨target, refers, -, same⟩ := exists_refers present external
    exact ⟨target, refers, congrArg NodeKey.name same⟩
  case sources => exact (pairwise_sources rs).filter _
  case external =>
    intro k hk
    rw [external_iff hk]
    simp only [mem_dangling, and_assoc]

example : (ofRecords [{ kind := .page, name := "P", usesTables := ["X", " X "] }]).warnings =
    [.unresolvedReference ⟨.page, "P"⟩ "X" .usesTable] := by cbv

end LayerGraph.Build
