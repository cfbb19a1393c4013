import LayerGraph.Proofs.DraftInvariant
import Mathlib

/-!
# The migration order of a graph

The order of a graph puts the orders of its layers one after the other, and keeps the places by key
in step with the sequence. It gives each node one place, and the places ascend with the layers. A
dependency is violated, that is, its source comes before its target, just when it leads to a later
layer or was reported as dropped inside a layer.

Main statements:
1. `inStep_place`, `inStep_appendAll`: the places stay in step as keys are given the next one.
2. `order_complete`: the order ends, lists each node once and ascends with the layers.
3. `violated_iff_reported`: what is violated is what leads to a later layer or is reported.
-/

namespace LayerGraph.MigrationOrder

open Places

variable {g : Graph} {layer : Option Layer} {k u v : NodeKey}

/-! ## Layers -/

theorem mem_layers (layer : Option Layer) : layer ∈ layers := by
  rcases layer with _ | layer
  · exact List.mem_cons_self
  · cases layer <;> decide

theorem pairwise_layers : layers.Pairwise fun a b => Layer.rankOf a < Layer.rankOf b := by
  decide

theorem rankOf_injective {a b : Option Layer} (h : Layer.rankOf a = Layer.rankOf b) : a = b := by
  have tie : ∀ a ∈ layers, ∀ b ∈ layers, Layer.rankOf a = Layer.rankOf b → a = b := by
    decide
  exact tie a (mem_layers a) b (mem_layers b) h

/-- The nodes of a layer in key order. -/
def membersOf (g : Graph) (layer : Option Layer) : List NodeKey :=
  g.sortedKeys.filter (·.layer = layer)

theorem mem_membersOf : k ∈ membersOf g layer ↔ k ∈ g.keys ∧ k.layer = layer := by
  rw [membersOf, List.mem_filter, Graph.mem_sortedKeys, decide_eq_true_iff]

theorem nodup_membersOf (hg : g.WellFormed) (layer : Option Layer) : (membersOf g layer).Nodup :=
  hg.nodup_sortedKeys.filter _

theorem ascending_membersOf (hg : g.WellFormed) (layer : Option Layer) :
    Sorted.Ascending (membersOf g layer) :=
  (Sorted.ascending_sort hg.keys_nodup).filter _

/-- The finished order of a layer. -/
def draftOf (g : Graph) (layer : Option Layer) : Draft :=
  Draft.ofMembers g (membersOf g layer)

theorem sound_draftOf (hg : g.WellFormed) (layer : Option Layer) :
    Draft.Sound g (membersOf g layer) (draftOf g layer) :=
  (Draft.ofMembers_spec hg (nodup_membersOf hg layer)).1

theorem placed_perm (hg : g.WellFormed) (layer : Option Layer) :
    (draftOf g layer).placed.Perm (membersOf g layer) := by
  obtain ⟨sound, hdone⟩ := Draft.ofMembers_spec hg (nodup_membersOf hg layer)
  have perm := sound.perm
  rw [Draft.left, hdone, List.map_nil, List.append_nil] at perm
  exact perm

theorem mem_placed (hg : g.WellFormed) :
    k ∈ (draftOf g layer).placed ↔ k ∈ g.keys ∧ k.layer = layer := by
  rw [(placed_perm hg layer).mem_iff, mem_membersOf]

/-! ## One layer after another -/

/-- Each place leads to the key that stands there, and the other way round. -/
def InStep (o : MigrationOrder) : Prop :=
  ∀ k i, o.position? k = some i ↔ o.sequence[i]? = some k

theorem inStep_empty : InStep {} := fun k i => by
  rw [position?, Std.TreeMap.getElem?_emptyc]
  exact ⟨nofun, nofun⟩

theorem position?_place (o : MigrationOrder) (j k : NodeKey) :
    (o.place k).position? j = if j = k then some o.sequence.length else o.position? j :=
  Sorted.getElem?_insert _ _ _ _

/-- A key that has no place yet can be given the next one. -/
theorem inStep_place {o : MigrationOrder} (h : InStep o) (new : k ∉ o.sequence) :
    InStep (o.place k) := by
  intro j i
  rw [position?_place]
  show _ ↔ (o.sequence ++ [k])[i]? = some j
  rw [List.getElem?_append]
  by_cases same : j = k
  · subst same
    rw [if_pos rfl, Option.some_inj]
    constructor
    · rintro rfl
      rw [if_neg (Nat.lt_irrefl _), Nat.sub_self]
      rfl
    · intro hi
      split at hi
      · exact absurd (List.mem_of_getElem? hi) new
      · have := (List.getElem?_eq_some_iff.1 hi).1
        rw [List.length_singleton] at this
        omega
  · rw [if_neg same, h j i]
    split
    · rfl
    · rename_i behind
      rw [List.getElem?_eq_none (Nat.le_of_not_lt behind)]
      refine ⟨nofun, fun hi => absurd ?_ same⟩
      exact List.mem_singleton.1 (List.mem_of_getElem? hi)

theorem sequence_foldl_place (ks : List NodeKey) (o : MigrationOrder) :
    (ks.foldl place o).sequence = o.sequence ++ ks := by
  induction ks generalizing o with
  | nil => exact (List.append_nil _).symm
  | cons k ks ih => rw [List.foldl_cons, ih, place, List.append_assoc, List.singleton_append]

theorem dropped_foldl_place (ks : List NodeKey) (o : MigrationOrder) :
    (ks.foldl place o).dropped = o.dropped := by
  induction ks generalizing o with
  | nil => rfl
  | cons k ks ih => rw [List.foldl_cons, ih, place]

theorem inStep_foldl_place {o : MigrationOrder} (h : InStep o) {ks : List NodeKey}
    (nodup : (o.sequence ++ ks).Nodup) : InStep (ks.foldl place o) := by
  induction ks generalizing o with
  | nil => exact h
  | cons k ks ih =>
    have new : k ∉ o.sequence := fun hmem =>
      (List.nodup_append.1 nodup).2.2 k hmem k List.mem_cons_self rfl
    refine ih (inStep_place h new) ?_
    rwa [place, List.append_assoc, List.singleton_append]

theorem sequence_append (o : MigrationOrder) (layer : Option Layer) (d : Draft) :
    (o.append layer d).sequence = o.sequence ++ d.placed :=
  sequence_foldl_place _ _

theorem dropped_append (o : MigrationOrder) (layer : Option Layer) (d : Draft) :
    (o.append layer d).dropped =
      o.dropped ++ d.dropped.map fun p => ⟨layer, p.1, p.2⟩ :=
  dropped_foldl_place _ _

theorem inStep_append {o : MigrationOrder} (h : InStep o) {d : Draft}
    (nodup : (o.sequence ++ d.placed).Nodup) : InStep (o.append layer d) :=
  have reported : InStep (o.report layer d.dropped) := h
  inStep_foldl_place reported nodup

/-- The order of some layers behind the others. -/
def appendAll (g : Graph) (o : MigrationOrder) (layers : List (Option Layer)) : MigrationOrder :=
  layers.foldl (fun o layer => o.append layer (draftOf g layer)) o

theorem sequence_appendAll (o : MigrationOrder) (layers : List (Option Layer)) :
    (appendAll g o layers).sequence =
      o.sequence ++ layers.flatMap fun layer => (draftOf g layer).placed := by
  induction layers generalizing o with
  | nil => exact (List.append_nil _).symm
  | cons layer layers ih =>
    rw [appendAll, List.foldl_cons]
    exact (ih _).trans (by rw [sequence_append, List.flatMap_cons, List.append_assoc])

theorem dropped_appendAll (o : MigrationOrder) (layers : List (Option Layer)) :
    (appendAll g o layers).dropped = o.dropped ++ layers.flatMap fun layer =>
      (draftOf g layer).dropped.map fun p => ⟨layer, p.1, p.2⟩ := by
  induction layers generalizing o with
  | nil => exact (List.append_nil _).symm
  | cons layer layers ih =>
    rw [appendAll, List.foldl_cons]
    exact (ih _).trans (by rw [dropped_append, List.flatMap_cons, List.append_assoc])

/-- As long as no key is placed twice, the places stay in step with the sequence. -/
theorem inStep_appendAll {o : MigrationOrder} (h : InStep o) {layers : List (Option Layer)}
    (nodup : (appendAll g o layers).sequence.Nodup) : InStep (appendAll g o layers) := by
  induction layers generalizing o with
  | nil => exact h
  | cons layer layers ih =>
    refine ih (inStep_append h ?_) nodup
    have whole := nodup
    rw [sequence_appendAll, List.flatMap_cons, ← List.append_assoc] at whole
    exact (List.nodup_append.1 whole).1

/-! ## The sequence -/

theorem sequence_eq : (ofGraph g).sequence = layers.flatMap fun layer => (draftOf g layer).placed :=
  sequence_appendAll {} layers

theorem mem_sequence (hg : g.WellFormed) : k ∈ (ofGraph g).sequence ↔ k ∈ g.keys := by
  rw [sequence_eq, List.mem_flatMap]
  constructor
  · rintro ⟨layer, -, hk⟩
    exact ((mem_placed hg).1 hk).1
  · intro hk
    exact ⟨k.layer, mem_layers _, (mem_placed hg).2 ⟨hk, rfl⟩⟩

theorem nodup_sequence (hg : g.WellFormed) : (ofGraph g).sequence.Nodup := by
  rw [sequence_eq, List.nodup_flatMap]
  constructor
  · intro layer _
    exact (placed_perm hg layer).nodup_iff.2 (nodup_membersOf hg layer)
  · refine pairwise_layers.imp fun {a b} hlt => ?_
    intro k ha hb
    have same : a = b := ((mem_placed hg).1 ha).2.symm.trans ((mem_placed hg).1 hb).2
    exact absurd (congrArg Layer.rankOf same) (Nat.ne_of_lt hlt)

theorem perm_sequence (hg : g.WellFormed) : (ofGraph g).sequence.Perm g.keys :=
  (List.perm_ext_iff_of_nodup (nodup_sequence hg) hg.keys_nodup).2 fun _ => mem_sequence hg

/-- The layers do not descend along the sequence. -/
theorem pairwise_sequence (hg : g.WellFormed) :
    (ofGraph g).sequence.Pairwise fun u v => Layer.rankOf u.layer ≤ Layer.rankOf v.layer := by
  rw [sequence_eq, List.pairwise_flatMap]
  constructor
  · intro layer _
    refine List.pairwise_of_forall_mem_list fun u hu v hv => ?_
    rw [((mem_placed hg).1 hu).2, ((mem_placed hg).1 hv).2]
  · refine pairwise_layers.imp fun {a b} hlt u hu v hv => ?_
    rw [((mem_placed hg).1 hu).2, ((mem_placed hg).1 hv).2]
    exact hlt.le

theorem placed_sublist (g : Graph) (layer : Option Layer) :
    (draftOf g layer).placed.Sublist (ofGraph g).sequence := by
  rw [sequence_eq]
  exact List.sublist_flatten_of_mem (List.mem_map_of_mem (mem_layers layer))

theorem before_of_rank_lt (hg : g.WellFormed) (hu : u ∈ g.keys) (hv : v ∈ g.keys)
    (hlt : Layer.rankOf u.layer < Layer.rankOf v.layer) : Before (ofGraph g).sequence u v := by
  have hne : u ≠ v := by
    rintro rfl
    exact Nat.lt_irrefl _ hlt
  -- one of them comes first, and the layers do not descend
  rcases before_or_before ((mem_sequence hg).2 hu) ((mem_sequence hg).2 hv) hne with huv | hvu
  · exact huv
  · have hle := List.pairwise_iff_forall_sublist.1 (pairwise_sequence hg) hvu
    exact absurd hlt (Nat.not_lt.2 hle)

/-! ## Places -/

theorem inStep_ofGraph (hg : g.WellFormed) : InStep (ofGraph g) :=
  inStep_appendAll inStep_empty (nodup_sequence hg)

theorem position?_eq_some_iff (hg : g.WellFormed) {i : Nat} :
    (ofGraph g).position? k = some i ↔ (ofGraph g).sequence[i]? = some k :=
  inStep_ofGraph hg k i

/-- The place of `u` is before that of `v`. -/
def Precedes (o : MigrationOrder) (u v : NodeKey) : Prop :=
  ∃ i j, o.position? u = some i ∧ o.position? v = some j ∧ i < j

theorem precedes_iff_before (hg : g.WellFormed) :
    (ofGraph g).Precedes u v ↔ Before (ofGraph g).sequence u v := by
  rw [before_iff_getElem?]
  constructor
  · rintro ⟨i, j, hi, hj, hij⟩
    exact ⟨i, j, hij, (position?_eq_some_iff hg).1 hi, (position?_eq_some_iff hg).1 hj⟩
  · rintro ⟨i, j, hij, hi, hj⟩
    exact ⟨i, j, (position?_eq_some_iff hg).2 hi, (position?_eq_some_iff hg).2 hj, hij⟩

/-- Every node gets a place, and only nodes do. -/
theorem exists_position? (hg : g.WellFormed) (hk : k ∈ g.keys) :
    ∃ i, (ofGraph g).position? k = some i := by
  obtain ⟨i, hi⟩ := List.mem_iff_getElem?.1 ((mem_sequence hg).2 hk)
  exact ⟨i, (position?_eq_some_iff hg).2 hi⟩

theorem order_apply (hg : g.WellFormed) {n : Node} (hn : n ∈ ((ofGraph g).apply g).nodes) :
    ∃ i : Nat, (ofGraph g).sequence[i]? = some n.key ∧ n.order = i := by
  obtain ⟨m, hm, rfl⟩ := List.mem_map.1 hn
  obtain ⟨i, hi⟩ := exists_position? hg (List.mem_map_of_mem hm)
  refine ⟨i, (position?_eq_some_iff hg).1 hi, ?_⟩
  show (((ofGraph g).position? m.key).map Int.ofNat).getD m.order = i
  rw [hi]
  rfl

/-- The order of each layer ends. The sequence lists every node once, a key has place `i` just when
it stands there, and the layers do not descend. Applying the order gives each node its place and
changes nothing else. -/
theorem order_complete (h : g.Reachable) :
    (∀ layer, Draft.Ends g (membersOf g layer)) ∧
    (ofGraph g).sequence.Perm g.keys ∧ (ofGraph g).sequence.Nodup ∧
    (∀ k i, (ofGraph g).position? k = some i ↔ (ofGraph g).sequence[i]? = some k) ∧
    ((ofGraph g).sequence.Pairwise fun u v => Layer.rankOf u.layer ≤ Layer.rankOf v.layer) ∧
    ((ofGraph g).apply g).keys = g.keys ∧ ((ofGraph g).apply g).edges = g.edges ∧
    ∀ n ∈ ((ofGraph g).apply g).nodes,
      ∃ i : Nat, (ofGraph g).sequence[i]? = some n.key ∧ n.order = i := by
  have hg := h.wellFormed
  refine ⟨fun layer => Draft.ends hg (nodup_membersOf hg layer), perm_sequence hg,
    nodup_sequence hg, fun k i => position?_eq_some_iff hg, pairwise_sequence hg,
    Graph.keys_withOrders _, Graph.edges_withOrders _, fun n hn => order_apply hg hn⟩

/-- Two cycles that share a member: all four nodes get a place, the table first. -/
theorem order_complete_overlapping :
    Graph.overlapping.Reachable ∧
    (ofGraph Graph.overlapping).sequence =
      [⟨.table, "T"⟩, ⟨.classDef, "A"⟩, ⟨.classDef, "C"⟩, ⟨.classDef, "B"⟩] ∧
    (∀ layer, Draft.Ends Graph.overlapping (membersOf Graph.overlapping layer)) ∧
    (ofGraph Graph.overlapping).sequence.Perm Graph.overlapping.keys ∧
    (ofGraph Graph.overlapping).position? ⟨.classDef, "B"⟩ = some 3 ∧
    ∀ n ∈ ((ofGraph Graph.overlapping).apply Graph.overlapping).nodes,
      ∃ i : Nat, (ofGraph Graph.overlapping).sequence[i]? = some n.key ∧ n.order = i := by
  have reachable : Graph.overlapping.Reachable := Graph.reachable_ofSteps _
  have sequence_eq : (ofGraph Graph.overlapping).sequence =
      [⟨.table, "T"⟩, ⟨.classDef, "A"⟩, ⟨.classDef, "C"⟩, ⟨.classDef, "B"⟩] := by
    cbv
  obtain ⟨ends, perm, -, place, -, -, -, applied⟩ := order_complete reachable
  refine ⟨reachable, sequence_eq, ends, perm, (place _ 3).2 ?_, applied⟩
  rw [sequence_eq]
  rfl

/-! ## What the order violates -/

theorem dropped_eq : (ofGraph g).dropped = layers.flatMap fun layer =>
    (draftOf g layer).dropped.map fun p => ⟨layer, p.1, p.2⟩ :=
  dropped_appendAll {} layers

theorem mem_dropped {e : Dropped} :
    e ∈ (ofGraph g).dropped ↔ (e.source, e.target) ∈ (draftOf g e.layer).dropped := by
  rw [dropped_eq, List.mem_flatMap]
  constructor
  · rintro ⟨layer, -, he⟩
    obtain ⟨p, hmem, rfl⟩ := List.mem_map.1 he
    exact hmem
  · intro hmem
    exact ⟨e.layer, mem_layers _, List.mem_map.2 ⟨_, hmem, rfl⟩⟩

/-- What is reported is a dependency inside its layer that the sequence violates. -/
theorem dropped_spec (hg : g.WellFormed) {e : Dropped} (he : e ∈ (ofGraph g).dropped) :
    g.Depends e.source e.target ∧ e.source.layer = e.layer ∧ e.target.layer = e.layer ∧
      Before (ofGraph g).sequence e.source e.target := by
  have sound := sound_draftOf hg e.layer
  obtain ⟨hsource, htarget, hdep⟩ := sound.dropped_depends _ _ (mem_dropped.1 he)
  have hplaced : e.target ∈ (draftOf g e.layer).placed := (placed_perm hg e.layer).mem_iff.2 htarget
  exact ⟨hdep, (mem_membersOf.1 hsource).2, (mem_membersOf.1 htarget).2,
    (sound.violated _ _ (mem_dropped.1 he) hplaced).mono (placed_sublist g e.layer)⟩

/-- What is not reported inside a layer is respected. -/
theorem before_of_not_dropped (hg : g.WellFormed) (hdep : g.Depends u v)
    (same : u.layer = v.layer) (hnot : ⟨u.layer, u, v⟩ ∉ (ofGraph g).dropped) :
    Before (ofGraph g).sequence v u := by
  obtain ⟨hu, hv⟩ := hg.depends_mem hdep
  have sound := sound_draftOf hg u.layer
  have hplaced : u ∈ (draftOf g u.layer).placed := (mem_placed hg).2 ⟨hu, rfl⟩
  have hmember : v ∈ membersOf g u.layer := mem_membersOf.2 ⟨hv, same.symm⟩
  exact (sound.respected u v hplaced hmember hdep fun hmem => hnot (mem_dropped.2 hmem)).mono
    (placed_sublist g u.layer)

theorem nodup_dropped (hg : g.WellFormed) :
    ((ofGraph g).dropped.map fun e => (e.source, e.target)).Nodup := by
  have pairs : (ofGraph g).dropped.map (fun e => (e.source, e.target)) =
      layers.flatMap fun layer => (draftOf g layer).dropped := by
    rw [dropped_eq, List.map_flatMap]
    refine List.flatMap_congr fun layer _ => ?_
    rw [List.map_map]
    exact List.map_id _
  rw [pairs, List.nodup_flatMap]
  constructor
  · exact fun layer _ => (sound_draftOf hg layer).nodup_dropped
  · refine pairwise_layers.imp fun {a b} hlt => ?_
    rintro ⟨source, target⟩ ha hb
    have hsource := ((sound_draftOf hg a).dropped_depends _ _ ha).1
    have hsource' := ((sound_draftOf hg b).dropped_depends _ _ hb).1
    have same : a = b := (mem_membersOf.1 hsource).2.symm.trans (mem_membersOf.1 hsource').2
    exact absurd (congrArg Layer.rankOf same) (Nat.ne_of_lt hlt)

/-- The source of a dependency comes before its target just when the target's layer is later, or
both are in one layer and the dependency is reported. Each report names a dependency inside its
layer that is violated, and none is reported twice. -/
theorem violated_iff_reported (h : g.Reachable) :
    (∀ u v, g.Depends u v → ((ofGraph g).Precedes u v ↔
      Layer.rankOf u.layer < Layer.rankOf v.layer ∨
        (u.layer = v.layer ∧ ∃ e ∈ (ofGraph g).dropped, e.source = u ∧ e.target = v))) ∧
    (∀ e ∈ (ofGraph g).dropped, g.Depends e.source e.target ∧ e.source.layer = e.layer ∧
      e.target.layer = e.layer ∧ (ofGraph g).Precedes e.source e.target) ∧
    ((ofGraph g).dropped.map fun e => (e.source, e.target)).Nodup := by
  have hg := h.wellFormed
  have nodup := nodup_sequence hg
  refine ⟨fun u v hdep => ?_, fun e he => ?_, nodup_dropped hg⟩
  · obtain ⟨hu, hv⟩ := hg.depends_mem hdep
    rw [precedes_iff_before hg]
    constructor
    · intro hbefore
      rcases Nat.lt_trichotomy (Layer.rankOf u.layer) (Layer.rankOf v.layer) with hlt | heq | hgt
      · exact .inl hlt
      · -- inside one layer, what is not reported is respected
        have same := rankOf_injective heq
        refine .inr ⟨same, ⟨u.layer, u, v⟩, ?_, rfl, rfl⟩
        by_contra hnot
        exact not_before_of_before nodup hbefore (before_of_not_dropped hg hdep same hnot)
      · exact absurd hbefore (not_before_of_before nodup (before_of_rank_lt hg hv hu hgt))
    · rintro (hlt | ⟨-, e, he, rfl, rfl⟩)
      · exact before_of_rank_lt hg hu hv hlt
      · exact (dropped_spec hg he).2.2.2
  · obtain ⟨hdep, hsource, htarget, hbefore⟩ := dropped_spec hg he
    exact ⟨hdep, hsource, htarget, (precedes_iff_before hg).2 hbefore⟩

/-- Of the two cycles, the first is broken at its link from `A` to `B` and the second one at its link
from `C` to `B`; the table comes before what it depends on, and that needs no report. -/
theorem violated_iff_reported_overlapping :
    Graph.overlapping.Reachable ∧
    (ofGraph Graph.overlapping).dropped = [⟨some .domain, ⟨.classDef, "A"⟩, ⟨.classDef, "B"⟩⟩,
      ⟨some .domain, ⟨.classDef, "C"⟩, ⟨.classDef, "B"⟩⟩] ∧
    (ofGraph Graph.overlapping).Precedes ⟨.classDef, "A"⟩ ⟨.classDef, "B"⟩ ∧
    (ofGraph Graph.overlapping).Precedes ⟨.table, "T"⟩ ⟨.classDef, "A"⟩ ∧
    ¬ (ofGraph Graph.overlapping).Precedes ⟨.classDef, "B"⟩ ⟨.classDef, "C"⟩ := by
  have reachable : Graph.overlapping.Reachable := Graph.reachable_ofSteps _
  have dropped_eq : (ofGraph Graph.overlapping).dropped =
      [⟨some .domain, ⟨.classDef, "A"⟩, ⟨.classDef, "B"⟩⟩,
        ⟨some .domain, ⟨.classDef, "C"⟩, ⟨.classDef, "B"⟩⟩] := by
    cbv
  have bc : Graph.overlapping.Depends ⟨.classDef, "B"⟩ ⟨.classDef, "C"⟩ :=
    ⟨⟨⟨.classDef, "B"⟩, ⟨.classDef, "C"⟩, .usesClass⟩, by decide, rfl, rfl⟩
  have ta : Graph.overlapping.Depends ⟨.table, "T"⟩ ⟨.classDef, "A"⟩ :=
    ⟨⟨⟨.table, "T"⟩, ⟨.classDef, "A"⟩, .usesClass⟩, by decide, rfl, rfl⟩
  obtain ⟨violated_iff, reported, -⟩ := violated_iff_reported reachable
  refine ⟨reachable, dropped_eq, ?_, (violated_iff _ _ ta).2 (.inl (by decide)), ?_⟩
  · have hmem : ⟨some .domain, ⟨.classDef, "A"⟩, ⟨.classDef, "B"⟩⟩ ∈
        (ofGraph Graph.overlapping).dropped := by
      rw [dropped_eq]
      exact List.mem_cons_self
    exact (reported _ hmem).2.2.2
  · rw [violated_iff _ _ bc, dropped_eq]
    decide

end LayerGraph.MigrationOrder
