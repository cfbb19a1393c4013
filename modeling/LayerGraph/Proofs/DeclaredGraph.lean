import LayerGraph.Proofs.GraphInvariant
import LayerGraph.Proofs.MergedRecords
import Mathlib.Data.String.Basic

/-!
# The graph that records declare

What a list of records declares is said here without building anything: which entities there are, and
which relations they have to names. The graph that is built holds just that. Each entity has a node;
each relation to a name that is neither blank nor the entity's own has an edge, to the entity of that
name if there is one and to a node for the unresolved name otherwise.

Main statements:
1. `mem_links_iff`: the links that are resolved one by one are the declared relations.
2. `Resolved.addLink`, `resolved_ofRecords`: what resolving one link adds, and what all of them lead
   to.
3. `ofRecords_exact`: nodes and edges of the graph that is built.
-/

namespace LayerGraph

/-! ## What records declare -/

/-- A record with a name declares the entity. -/
def Declares (rs : List EntityRecord) (k : NodeKey) : Prop :=
  ∃ r ∈ rs, r.isNamed = true ∧ r.key = k

/-- One of the entity's records declares the relation to the name. Parents are single: of several
only the least text counts. -/
def Relates (rs : List EntityRecord) (k : NodeKey) (kind : EdgeKind) (target : String) : Prop :=
  (∃ r ∈ rs, r.isNamed = true ∧ r.key = k ∧ (kind, target) ∈ r.relations) ∧
    (kind = .inherits →
      ∀ r ∈ rs, r.isNamed = true → r.key = k → ∀ p, r.parentClass = some p → target ≤ p)

/-- What a name stands for: the entity of that name and of the type that the relation expects, or
else the unresolved name. -/
def Resolves (rs : List EntityRecord) (kind : EdgeKind) (target : String) (k : NodeKey) : Prop :=
  (Declares rs ⟨kind.targetType, Text.trim target⟩ ∧ k = ⟨kind.targetType, Text.trim target⟩) ∨
    (¬ Declares rs ⟨kind.targetType, Text.trim target⟩ ∧ k = ⟨.external, Text.trim target⟩)

/-- The relation is to a name that is neither blank nor the entity's own. -/
def Refers (rs : List EntityRecord) (k : NodeKey) (kind : EdgeKind) (target : String) : Prop :=
  Relates rs k kind target ∧ Text.trim target ≠ "" ∧ ⟨kind.targetType, Text.trim target⟩ ≠ k

variable {rs : List EntityRecord} {k : NodeKey} {kind : EdgeKind} {target : String}

theorem isExternal_key (r : EntityRecord) : r.key.isExternal = false := by
  obtain ⟨kind, name⟩ := r
  cases kind <;> rfl

theorem Declares.not_external (h : Declares rs k) : k.isExternal = false := by
  obtain ⟨r, -, -, rfl⟩ := h
  exact isExternal_key r

/-! ## The declarations that are brought together -/

namespace EntityRecord

/-- The names that a record gives to a kind of relation. -/
def names (r : EntityRecord) : EdgeKind → List String
  | .inherits => r.parentClass.toList
  | .usesTable => r.usesTables
  | .callsProcedure => r.callsProcedures
  | .usesClass => r.usesClasses

theorem mem_relations {r : EntityRecord} : (kind, target) ∈ r.relations ↔ target ∈ r.names kind := by
  cases kind <;> simp [relations, names]

end EntityRecord

namespace Declaration

variable {d : Declaration} {l : Link} {p : String}

/-- The names that a declaration gives to a kind of relation. -/
def names (d : Declaration) : EdgeKind → List String
  | .inherits => d.parent.toList
  | .usesTable => d.tables
  | .callsProcedure => d.procedures
  | .usesClass => d.classes

theorem mem_links : l ∈ d.links ↔ l.source = d.key ∧ l.target ∈ d.names l.kind := by
  obtain ⟨source, kind, target⟩ := l
  cases kind <;> simp [links, names, and_comm, eq_comm]

theorem key_foldl_merge (rs : List EntityRecord) (d : Declaration) :
    (rs.foldl merge d).key = d.key := by
  induction rs generalizing d with
  | nil => rfl
  | cons r rest ih => exact ih (d.merge r)

/-- Names add up, but for the parent. -/
theorem names_foldl_merge (hkind : kind ≠ .inherits) (rs : List EntityRecord) (d : Declaration) :
    (rs.foldl merge d).names kind = d.names kind ++ rs.flatMap (·.names kind) := by
  induction rs generalizing d with
  | nil => simp
  | cons r rest ih =>
    have one : (d.merge r).names kind = d.names kind ++ r.names kind := by
      cases kind <;> first | exact absurd rfl hkind | rfl
    rw [List.foldl_cons, ih, one, List.flatMap_cons, List.append_assoc]

theorem leastText_some (a b : String) : leastText (some a) (some b) = some (min a b) := by
  unfold leastText
  by_cases h : b < a
  · rw [min_eq_right h.le]
    exact congrArg some (if_pos (compare_lt_iff_lt.2 h))
  · rw [min_eq_left (not_lt.1 h)]
    exact congrArg some (if_neg fun e => h (compare_lt_iff_lt.1 e))

/-- The parent is the least one. -/
theorem parent_foldl_merge (rs : List EntityRecord) (d : Declaration) :
    (rs.foldl merge d).parent = (d.parent.toList ++ rs.filterMap (·.parentClass)).min? := by
  induction rs generalizing d with
  | nil => cases h : d.parent <;> simp [h]
  | cons r rest ih =>
    have one : (d.merge r).parent = leastText d.parent r.parentClass := rfl
    rw [List.foldl_cons, ih, one]
    cases hd : d.parent with
    | none => cases hr : r.parentClass <;> simp [leastText, hr]
    | some a =>
      cases hr : r.parentClass with
      | none => simp [leastText, hr]
      | some b =>
        rw [leastText_some, List.filterMap_cons_some hr]
        simp only [Option.toList_some, List.singleton_append, List.min?_cons', List.foldl_cons]

theorem mem_names_ofRecords : target ∈ (ofRecords k rs).names kind ↔
    (∃ r ∈ rs, r.key = k ∧ target ∈ r.names kind) ∧
      (kind = .inherits → ∀ r ∈ rs, r.key = k → ∀ p, r.parentClass = some p → target ≤ p) := by
  by_cases hkind : kind = .inherits
  · subst hkind
    have parent_eq := parent_foldl_merge (rs.filter (·.key = k)) { key := k }
    have declared : ∀ p, p ∈ (rs.filter (·.key = k)).filterMap (·.parentClass) ↔
        ∃ r ∈ rs, r.key = k ∧ r.parentClass = some p := by
      simp [and_assoc]
    show target ∈ (ofRecords k rs).parent.toList ↔ _
    rw [Option.mem_toList, ofRecords, parent_eq, Option.toList_none, List.nil_append,
      List.min?_eq_some_iff, declared]
    refine and_congr (by simp [EntityRecord.names]) ⟨?_, ?_⟩
    · intro least _ r hr hkey p hp
      exact least p ((declared p).2 ⟨r, hr, hkey, hp⟩)
    · intro least p hp
      obtain ⟨r, hr, hkey, hp⟩ := (declared p).1 hp
      exact least rfl r hr hkey p hp
  · rw [ofRecords, names_foldl_merge hkind]
    have start : names { key := k } kind = [] := by
      cases kind <;> first | exact absurd rfl hkind | rfl
    simp [start, hkind, and_assoc]

end Declaration

namespace Build

open Declaration

variable {l : Link}

theorem mem_namedKeys : k ∈ namedKeys rs ↔ Declares rs k := by
  simp [namedKeys, Declares, and_assoc]

theorem mem_declarations {d : Declaration} : d ∈ declarations rs ↔
    ∃ k, Declares rs k ∧ d = Declaration.ofRecords k (rs.filter EntityRecord.isNamed) := by
  unfold declarations
  rw [List.mem_map]
  refine exists_congr fun k => and_congr ?_ eq_comm
  rw [Sorted.mem_distinct, mem_namedKeys]

theorem key_ofRecords (k : NodeKey) (rs : List EntityRecord) :
    (Declaration.ofRecords k rs).key = k :=
  key_foldl_merge _ _

/-- The links that are resolved are the declared relations. -/
theorem mem_links_iff : l ∈ (declarations rs).flatMap links ↔
    Relates rs l.source l.kind l.target := by
  have named : ∀ P : EntityRecord → Prop,
      (∃ r ∈ rs.filter EntityRecord.isNamed, P r) ↔ ∃ r ∈ rs, r.isNamed = true ∧ P r := by
    simp [and_assoc]
  rw [List.mem_flatMap]
  constructor
  · rintro ⟨d, hd, hl⟩
    obtain ⟨k, -, rfl⟩ := mem_declarations.1 hd
    obtain ⟨hsource, htarget⟩ := Declaration.mem_links.1 hl
    rw [key_ofRecords] at hsource
    subst hsource
    obtain ⟨hmem, hleast⟩ := mem_names_ofRecords.1 htarget
    refine ⟨?_, fun hkind r hr hnamed => hleast hkind r (List.mem_filter.2 ⟨hr, hnamed⟩)⟩
    obtain ⟨r, hr, hnamed, hkey, hname⟩ := (named _).1 hmem
    exact ⟨r, hr, hnamed, hkey, EntityRecord.mem_relations.2 hname⟩
  · rintro ⟨⟨r, hr, hnamed, hkey, hname⟩, hleast⟩
    refine ⟨_, mem_declarations.2 ⟨l.source, ⟨r, hr, hnamed, hkey⟩, rfl⟩, ?_⟩
    refine Declaration.mem_links.2 ⟨(key_ofRecords _ _).symm, mem_names_ofRecords.2 ⟨?_, ?_⟩⟩
    · exact (named _).2 ⟨r, hr, hnamed, hkey, EntityRecord.mem_relations.1 hname⟩
    · intro hkind s hs
      obtain ⟨hs, hs_named⟩ := List.mem_filter.1 hs
      exact hleast hkind s hs hs_named

end Build

/-! ## Growing a graph -/

namespace Graph

variable {g : Graph} {e e' : Edge} {j : NodeKey}

theorem edges_addNode (g : Graph) (k : NodeKey) : (g.addNode k).2.edges = g.edges := by
  unfold addNode
  split <;> rfl

theorem mem_nodes_addNode {n : Node} (h : n ∈ (g.addNode k).2.nodes) :
    n ∈ g.nodes ∨ n = { key := k } := by
  unfold addNode at h
  split at h
  · exact .inl h
  · simpa using h

theorem mem_keys_addNode : j ∈ (g.addNode k).2.keys ↔ j ∈ g.keys ∨ j = k := by
  unfold addNode
  split
  · next present =>
    have mem : k ∈ g.keys := contains_iff.1 present
    exact ⟨.inl, fun h => h.elim id fun e => e ▸ mem⟩
  · simp [keys]

/-- The graph with an edge, which is added behind all others unless it is there. -/
def withEdge (g : Graph) (e : Edge) : Graph :=
  { g with edges := if e ∈ g.edges then g.edges else g.edges ++ [e] }

theorem mem_edges_withEdge : e' ∈ (g.withEdge e).edges ↔ e' ∈ g.edges ∨ e' = e := by
  unfold withEdge
  dsimp only
  split
  · next present => exact ⟨.inl, fun h => h.elim id fun heq => heq ▸ present⟩
  · simp

/-- Where both ends are there and differ, an edge is added unless it is there. -/
theorem addEdge_of_mem (hsource : e.source ∈ g.keys) (htarget : e.target ∈ g.keys)
    (hne : e.source ≠ e.target) :
    g.addEdge e = (if e ∈ g.edges then .duplicate else .added, g.withEdge e) := by
  have ends : ¬ (!(g.contains e.source && g.contains e.target)) = true := by
    simp [contains_iff.2 hsource, contains_iff.2 htarget]
  rw [addEdge, if_neg ends, if_neg hne, withEdge]
  split <;> rfl

end Graph

namespace Build

variable {l : Link} {links : List Link} {out : BuildOutput} {e : Edge}

/-! ## Resolving one link -/

/-- The link is to a name that is neither blank nor the source's own. -/
def Counts (l : Link) : Prop :=
  Text.trim l.target ≠ "" ∧ localKey l ≠ l.source

/-- What is said about an edge to an unresolved name. -/
def unresolved (e : Edge) : BuildWarning :=
  .unresolvedReference e.source e.target.name e.kind

/-- What is said about the edges of a graph. -/
def unresolvedWarnings (g : Graph) : List BuildWarning :=
  (g.edges.filter (·.target.isExternal)).map unresolved

theorem not_external_localKey (l : Link) : (localKey l).isExternal = false := by
  obtain ⟨source, kind, target⟩ := l
  cases kind <;> rfl

theorem ne_externalKey (h : k.isExternal = false) (l : Link) : k ≠ externalKey l := by
  rintro rfl
  simp [externalKey, NodeKey.isExternal] at h

theorem unresolvedWarnings_withEdge_local {g : Graph} (h : e.target.isExternal = false) :
    unresolvedWarnings (g.withEdge e) = unresolvedWarnings g := by
  unfold unresolvedWarnings Graph.withEdge
  dsimp only
  split
  · rfl
  · simp [h]

theorem unresolvedWarnings_withEdge_external {g : Graph} (h : e.target.isExternal = true) :
    unresolvedWarnings (g.withEdge e) =
      unresolvedWarnings g ++ if e ∈ g.edges then [] else [unresolved e] := by
  unfold unresolvedWarnings Graph.withEdge
  dsimp only
  split
  · simp
  · simp [h]

theorem not_skipped_iff : (Text.isBlankText l.target || decide (localKey l = l.source)) = false ↔
    Counts l := by
  rw [Bool.or_eq_false_iff, decide_eq_false_iff_not, ← Bool.not_eq_true,
    ← Text.trim_eq_empty_iff]
  rfl

theorem addLink_of_not_counts (h : ¬ Counts l) : addLink out l = out := by
  rw [addLink, if_pos]
  rw [← not_skipped_iff, Bool.not_eq_false] at h
  exact h

theorem addLink_of_contains (h : Counts l) (hsource : l.source ∈ out.graph.keys)
    (hlocal : localKey l ∈ out.graph.keys) :
    addLink out l = { out with graph := out.graph.withEdge ⟨l.source, localKey l, l.kind⟩ } := by
  rw [addLink, not_skipped_iff.2 h, if_neg Bool.false_ne_true,
    if_pos (Graph.contains_iff.2 hlocal), Graph.addEdge_of_mem hsource hlocal h.2.symm]

/-- Where the target is not declared, an edge to the unresolved name is added, with a warning unless
it is there. -/
theorem addLink_of_not_contains (h : Counts l) (hsource : l.source ∈ out.graph.keys)
    (hlocal : localKey l ∉ out.graph.keys) (hne : l.source ≠ externalKey l) :
    addLink out l =
      let g := (out.graph.addNode (externalKey l)).2
      let e : Edge := ⟨l.source, externalKey l, l.kind⟩
      ⟨g.withEdge e, out.warnings ++ if e ∈ g.edges then [] else [unresolved e]⟩ := by
  have added := Graph.addEdge_of_mem (g := (out.graph.addNode (externalKey l)).2)
    (e := ⟨l.source, externalKey l, l.kind⟩) (Graph.mem_keys_addNode.2 (.inl hsource))
    (Graph.mem_keys_addNode.2 (.inr rfl)) hne
  rw [addLink, not_skipped_iff.2 h, if_neg Bool.false_ne_true,
    if_neg fun hc => hlocal (Graph.contains_iff.1 hc)]
  dsimp only
  rw [added]
  by_cases hmem : ⟨l.source, externalKey l, l.kind⟩ ∈ (out.graph.addNode (externalKey l)).2.edges
  · rw [if_pos hmem, if_pos hmem, List.append_nil]
  · rw [if_neg hmem, if_neg hmem]
    rfl

/-- Warnings have no say in what graph is built. -/
theorem graph_foldl_addLink (links : List Link) {out out' : BuildOutput}
    (h : out.graph = out'.graph) :
    (links.foldl addLink out).graph = (links.foldl addLink out').graph := by
  induction links generalizing out out' with
  | nil => exact h
  | cons l rest ih =>
    refine ih ?_
    unfold addLink
    rw [h]
    split
    · exact h
    split
    · rfl
    · dsimp only
      split <;> rfl

/-- The links have been resolved: the graph holds what the records declare and what these links lead
to, and there is one more warning for each edge to an unresolved name. -/
structure Resolved (rs : List EntityRecord) (links : List Link) (out : BuildOutput) : Prop where
  keys : ∀ k, k ∈ out.graph.keys ↔ Declares rs k ∨
    ∃ l ∈ links, Counts l ∧ ¬ Declares rs (localKey l) ∧ k = externalKey l
  edges : ∀ e, e ∈ out.graph.edges ↔
    ∃ l ∈ links, Counts l ∧ e.source = l.source ∧ e.kind = l.kind ∧
      Resolves rs l.kind l.target e.target
  warnings : out.warnings =
    unnamedWarnings rs ++ duplicateWarnings rs ++ unresolvedWarnings out.graph
  unordered : ∀ n ∈ out.graph.nodes, n.order = LayerGraph.unordered

theorem exists_mem_concat {α : Type} {xs : List α} {x : α} {P : α → Prop} :
    (∃ y ∈ xs ++ [x], P y) ↔ (∃ y ∈ xs, P y) ∨ P x := by
  simp [or_and_right, exists_or]

theorem edge_eq_iff {source target : NodeKey} {kind : EdgeKind} :
    e = ⟨source, target, kind⟩ ↔ e.source = source ∧ e.kind = kind ∧ e.target = target := by
  cases e
  simp only [Edge.mk.injEq]
  tauto

theorem Resolved.addLink_declared (h : Resolved rs links out) (hsource : Declares rs l.source)
    (hcounts : Counts l) (hdecl : Declares rs (localKey l)) :
    Resolved rs (links ++ [l]) (addLink out l) := by
  have hsource_mem : l.source ∈ out.graph.keys := (h.keys _).2 (.inl hsource)
  have hlocal : localKey l ∈ out.graph.keys := (h.keys _).2 (.inl hdecl)
  have resolves : ∀ k, Resolves rs l.kind l.target k ↔ k = localKey l := fun k =>
    ⟨fun hk => hk.elim And.right fun hnot => absurd hdecl hnot.1, fun hk => .inl ⟨hdecl, hk⟩⟩
  rw [addLink_of_contains hcounts hsource_mem hlocal]
  constructor
  · intro k
    rw [exists_mem_concat, ← or_assoc, ← h.keys]
    simp [hdecl, Graph.withEdge, Graph.keys]
  · intro e
    rw [exists_mem_concat, ← h.edges, resolves, Graph.mem_edges_withEdge, edge_eq_iff]
    simp [hcounts]
  · rw [h.warnings, unresolvedWarnings_withEdge_local (not_external_localKey l)]
  · exact h.unordered

theorem Resolved.addLink_undeclared (h : Resolved rs links out) (hsource : Declares rs l.source)
    (hcounts : Counts l) (hdecl : ¬ Declares rs (localKey l)) :
    Resolved rs (links ++ [l]) (addLink out l) := by
  have hsource_mem : l.source ∈ out.graph.keys := (h.keys _).2 (.inl hsource)
  -- the placeholders that earlier links have added do not stand for entities
  have hlocal : localKey l ∉ out.graph.keys := by
    rw [h.keys]
    rintro (hk | ⟨m, -, -, -, hk⟩)
    · exact hdecl hk
    · exact ne_externalKey (not_external_localKey l) m hk
  have hne : l.source ≠ externalKey l := ne_externalKey hsource.not_external l
  have resolves : ∀ k, Resolves rs l.kind l.target k ↔ k = externalKey l := fun k =>
    ⟨fun hk => hk.elim (fun hyes => absurd hyes.1 hdecl) And.right, fun hk => .inr ⟨hdecl, hk⟩⟩
  rw [addLink_of_not_contains hcounts hsource_mem hlocal hne]
  constructor
  · intro k
    show k ∈ (out.graph.addNode (externalKey l)).2.keys ↔ _
    rw [exists_mem_concat, ← or_assoc, ← h.keys, Graph.mem_keys_addNode]
    simp [hcounts, hdecl]
  · intro e
    rw [exists_mem_concat, ← h.edges, resolves, Graph.mem_edges_withEdge, edge_eq_iff,
      Graph.edges_addNode]
    simp [hcounts]
  · dsimp only
    rw [unresolvedWarnings_withEdge_external rfl, h.warnings, unresolvedWarnings,
      unresolvedWarnings, Graph.edges_addNode, List.append_assoc]
  · intro n hn
    rcases Graph.mem_nodes_addNode hn with hn | rfl
    · exact h.unordered n hn
    · rfl

theorem Resolved.addLink_skipped (h : Resolved rs links out) (hcounts : ¬ Counts l) :
    Resolved rs (links ++ [l]) (addLink out l) := by
  rw [addLink_of_not_counts hcounts]
  constructor
  · intro k
    rw [exists_mem_concat, h.keys]
    simp [hcounts]
  · intro e
    rw [exists_mem_concat, h.edges]
    simp [hcounts]
  · exact h.warnings
  · exact h.unordered

/-- Resolving one more link: it leads to an entity, to an unresolved name, or nowhere. -/
theorem Resolved.addLink (h : Resolved rs links out) (hsource : Declares rs l.source) :
    Resolved rs (links ++ [l]) (addLink out l) := by
  by_cases hcounts : Counts l
  · by_cases hdecl : Declares rs (localKey l)
    · exact h.addLink_declared hsource hcounts hdecl
    · exact h.addLink_undeclared hsource hcounts hdecl
  · exact h.addLink_skipped hcounts

/-! ## Resolving all links -/

theorem mem_keys_nodesOf {declared : List Declaration} :
    k ∈ (nodesOf declared).keys ↔ ∃ d ∈ declared, k = d.key := by
  have run : ∀ (ds : List Declaration) (g : Graph),
      k ∈ (ds.foldl (fun g d => (g.addNode d.key).2) g).keys ↔ k ∈ g.keys ∨ ∃ d ∈ ds, k = d.key := by
    intro ds
    induction ds with
    | nil => simp
    | cons d rest ih =>
      intro g
      rw [List.foldl_cons, ih, Graph.mem_keys_addNode]
      simp [or_assoc]
  rw [nodesOf, run]
  simp [Graph.keys]

theorem nodesOf_spec (declared : List Declaration) :
    (nodesOf declared).edges = [] ∧ ∀ n ∈ (nodesOf declared).nodes, n.order = LayerGraph.unordered := by
  have run : ∀ (ds : List Declaration) (g : Graph),
      g.edges = [] ∧ (∀ n ∈ g.nodes, n.order = LayerGraph.unordered) →
      let g' := ds.foldl (fun g d => (g.addNode d.key).2) g
      g'.edges = [] ∧ ∀ n ∈ g'.nodes, n.order = LayerGraph.unordered := by
    intro ds
    induction ds with
    | nil => exact fun _ h => h
    | cons d rest ih =>
      rintro g ⟨hedges, horder⟩
      refine ih _ ⟨(Graph.edges_addNode g d.key).trans hedges, fun n hn => ?_⟩
      rcases Graph.mem_nodes_addNode hn with hn | rfl
      · exact horder n hn
      · rfl
  exact run declared {} ⟨rfl, by simp⟩

theorem resolved_start (rs : List EntityRecord) : Resolved rs []
    { graph := nodesOf (declarations rs)
      warnings := unnamedWarnings rs ++ duplicateWarnings rs } := by
  obtain ⟨hedges, horder⟩ := nodesOf_spec (declarations rs)
  constructor
  · intro k
    rw [mem_keys_nodesOf]
    constructor
    · rintro ⟨d, hd, rfl⟩
      obtain ⟨k, hk, rfl⟩ := mem_declarations.1 hd
      rw [key_ofRecords]
      exact .inl hk
    · rintro (hk | ⟨l, hl, -⟩)
      · exact ⟨_, mem_declarations.2 ⟨k, hk, rfl⟩, (key_ofRecords _ _).symm⟩
      · exact absurd hl List.not_mem_nil
  · intro e
    simp [hedges]
  · simp [unresolvedWarnings, hedges]
  · exact horder

/-- All links have been resolved in the end. -/
theorem resolved_ofRecords (rs : List EntityRecord) :
    Resolved rs ((declarations rs).flatMap Declaration.links) (ofRecords rs) := by
  have run : ∀ (rest links : List Link) (out : BuildOutput), Resolved rs links out →
      (∀ l ∈ rest, Declares rs l.source) → Resolved rs (links ++ rest) (rest.foldl addLink out) := by
    intro rest
    induction rest with
    | nil => exact fun links out h _ => by simpa using h
    | cons l rest ih =>
      intro links out h hsource
      rw [List.append_cons]
      exact ih _ _ (h.addLink (hsource l List.mem_cons_self))
        fun m hm => hsource m (List.mem_cons_of_mem l hm)
  rw [ofRecords_eq]
  refine run _ [] _ (resolved_start rs) fun l hl => ?_
  obtain ⟨⟨r, hr, hnamed, hkey, -⟩, -⟩ := mem_links_iff.1 hl
  exact ⟨r, hr, hnamed, hkey⟩

/-! ## The graph as a whole -/

theorem exists_link_iff {P : NodeKey → EdgeKind → String → Prop} :
    (∃ l ∈ (declarations rs).flatMap Declaration.links, Counts l ∧ P l.source l.kind l.target) ↔
      ∃ source kind target, Refers rs source kind target ∧ P source kind target := by
  constructor
  · rintro ⟨l, hl, hcounts, hP⟩
    exact ⟨l.source, l.kind, l.target, ⟨mem_links_iff.1 hl, hcounts⟩, hP⟩
  · rintro ⟨source, kind, target, ⟨hrelates, hcounts⟩, hP⟩
    exact ⟨⟨source, kind, target⟩, mem_links_iff.2 hrelates, hcounts, hP⟩

theorem mem_keys_ofRecords (rs : List EntityRecord) (k : NodeKey) :
    k ∈ (ofRecords rs).graph.keys ↔ Declares rs k ∨
      ∃ source kind target, Refers rs source kind target ∧
        ¬ Declares rs ⟨kind.targetType, Text.trim target⟩ ∧ k = ⟨.external, Text.trim target⟩ := by
  rw [(resolved_ofRecords rs).keys]
  exact or_congr_right (exists_link_iff (P := fun _ kind target =>
    ¬ Declares rs ⟨kind.targetType, Text.trim target⟩ ∧ k = ⟨.external, Text.trim target⟩))

theorem mem_edges_ofRecords (rs : List EntityRecord) (e : Edge) :
    e ∈ (ofRecords rs).graph.edges ↔
      ∃ target, Refers rs e.source e.kind target ∧ Resolves rs e.kind target e.target := by
  rw [(resolved_ofRecords rs).edges, exists_link_iff (P := fun source kind target =>
    e.source = source ∧ e.kind = kind ∧ Resolves rs kind target e.target)]
  constructor
  · rintro ⟨_, _, target, hrefers, rfl, rfl, hresolves⟩
    exact ⟨target, hrefers, hresolves⟩
  · rintro ⟨target, hrefers, hresolves⟩
    exact ⟨_, _, target, hrefers, rfl, rfl, hresolves⟩

/-- The nodes of a graph that is built are the declared entities and the unresolved names that they
refer to, each once and none with an order; its edges are the references, each once. -/
theorem ofRecords_exact (rs : List EntityRecord) :
    (∀ k, k ∈ (ofRecords rs).graph.keys ↔ Declares rs k ∨
      ∃ source kind target, Refers rs source kind target ∧
        ¬ Declares rs ⟨kind.targetType, Text.trim target⟩ ∧ k = ⟨.external, Text.trim target⟩) ∧
    (∀ e, e ∈ (ofRecords rs).graph.edges ↔
      ∃ target, Refers rs e.source e.kind target ∧ Resolves rs e.kind target e.target) ∧
    (ofRecords rs).graph.keys.Nodup ∧ (ofRecords rs).graph.edges.Nodup ∧
    ∀ n ∈ (ofRecords rs).graph.nodes, n.order = LayerGraph.unordered := by
  have wellFormed := (reachable_ofRecords rs).wellFormed
  exact ⟨mem_keys_ofRecords rs, mem_edges_ofRecords rs, wellFormed.keys_nodup,
    wellFormed.edges_nodup, (resolved_ofRecords rs).unordered⟩

end Build

end LayerGraph
