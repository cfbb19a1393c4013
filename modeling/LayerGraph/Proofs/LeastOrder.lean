import LayerGraph.Proofs.LayerCircuits

/-!
# The least order

Where no layer has a circuit, many orders respect all dependencies inside the layers. The one that is
computed is the first of them when orders are compared key by key: a layer's order takes the ready
node with the smallest key, and whatever another order has at this place is ready, too, since all that
it waits for came before. Where the other order has the same key, the argument goes on with what is
left; where it has another one, that one is larger.

Main statements:
1. `Sound.exists_le`: what a draft goes on to place is no larger than any order of what it has left.
2. `flatMap_filter_layers`: an order along which the layers do not descend is made of its layers.
3. `sequence_least`: the order of a graph is the least one.
-/

namespace LayerGraph

open Places
open Sorted (Ascending)

/-! ## Comparing lists key by key -/

section Lists

variable {as bs cs ds : List NodeKey} {k j : NodeKey}

theorem Sorted.nil_le (bs : List NodeKey) : Sorted.le [] bs = true := by
  cases bs <;> rfl

theorem Sorted.cons_le_cons_iff : Sorted.le (k :: as) (j :: bs) = true ↔
    compare k j = .lt ∨ (k = j ∧ Sorted.le as bs = true) := by
  unfold Sorted.le
  rw [List.compare_cons_cons]
  cases hcmp : compare k j with
  | lt => exact iff_of_true rfl (.inl rfl)
  | eq =>
    obtain rfl : k = j := Std.LawfulEqOrd.eq_of_compare hcmp
    exact ⟨fun h => .inr ⟨rfl, h⟩, fun h => (h.resolve_left (by decide)).2⟩
  | gt =>
    refine iff_of_false (by simp) ?_
    rintro (hlt | ⟨rfl, -⟩)
    · exact absurd hlt (by decide)
    · have same : compare k k = .eq := Std.ReflCmp.compare_self
      rw [same] at hcmp
      exact absurd hcmp (by decide)

/-- Of lists of one length, what follows them only counts where they are equal. -/
theorem Sorted.append_le_append (hlength : as.length = bs.length) (hfront : Sorted.le as bs = true)
    (hback : Sorted.le cs ds = true) : Sorted.le (as ++ cs) (bs ++ ds) = true := by
  induction as generalizing bs with
  | nil =>
    obtain rfl := List.eq_nil_of_length_eq_zero hlength.symm
    exact hback
  | cons a as ih =>
    obtain ⟨b, bs, rfl⟩ := List.exists_cons_of_length_eq_add_one hlength.symm
    rcases Sorted.cons_le_cons_iff.1 hfront with hlt | ⟨rfl, hrest⟩
    · exact Sorted.cons_le_cons_iff.2 (.inl hlt)
    · exact Sorted.cons_le_cons_iff.2 (.inr ⟨rfl, ih (Nat.succ.inj hlength) hrest⟩)

theorem Sorted.flatMap_le_flatMap {α : Type} {f h : α → List NodeKey}
    (hlength : ∀ a, (f a).length = (h a).length) (hle : ∀ a, Sorted.le (f a) (h a) = true)
    (xs : List α) : Sorted.le (xs.flatMap f) (xs.flatMap h) = true := by
  induction xs with
  | nil => exact Sorted.nil_le _
  | cons a rest ih =>
    rw [List.flatMap_cons, List.flatMap_cons]
    exact Sorted.append_le_append (hlength a) (hle a) ih

end Lists

namespace Draft

variable {g : Graph} {d : Draft} {members ks js : List NodeKey} {k j u v : NodeKey}

/-! ## What a draft goes on to place -/

/-- An order of what a draft has left, each node after all that it waits for. -/
structure Completes (d : Draft) (ks : List NodeKey) : Prop where
  perm : ks.Perm d.left
  respects : ∀ u v, v ∈ d.waitsFor u → Before ks v u

/-- The first node of such an order is ready. -/
theorem Completes.ready (h : d.Completes (j :: js)) (nodup : d.left.Nodup) : d.waitsFor j = [] := by
  refine List.eq_nil_iff_forall_not_mem.2 fun v hv => ?_
  have earlier := idxOf_lt_of_before (h.perm.nodup_iff.2 nodup) (h.respects j v hv)
  rw [List.idxOf_cons_self] at earlier
  exact Nat.not_lt_zero _ earlier

/-- Once its first node is placed, the rest is such an order. -/
theorem Completes.place (h : d.Completes (k :: js)) (nodup : d.left.Nodup) :
    (d.place k).Completes js where
  perm := by
    rw [left_place_eq_erase nodup]
    exact (List.cons_perm_iff_perm_erase.1 h.perm).2
  respects := by
    intro u v hv
    rw [waitsFor_place] at hv
    split at hv
    · exact absurd hv List.not_mem_nil
    · obtain ⟨hwaits, hne⟩ := List.mem_filter.1 hv
      exact (h.respects u v hwaits).of_cons_of_ne (of_decide_eq_true hne)

/-- Without a circuit among the members, some node is ready as long as there are nodes left. -/
theorem Sound.exists_ready (h : Sound g members d) (hg : g.WellFormed) (nodup : members.Nodup)
    (acyclic : ∀ k, ¬ Relation.TransGen (Inside g members) k k) (unfinished : d.left ≠ []) :
    ∃ k, d.ready? = some k := by
  refine Option.ne_none_iff_exists'.1 fun hnone => ?_
  have dom := h.domain hg nodup
  obtain ⟨c, target, breaks⟩ :=
    exists_breaks (g := g) dom unfinished (waitsFor_ne_nil dom.nodup_nodes hnone)
  have link := h.inside_of_mem (breaks.mem_waitsFor breaks.link)
  exact acyclic _ (.head link (h.transGen_of_next breaks.first breaks.link))

/-- Without a circuit among the members, what a draft goes on to place is no larger than any order of
what it has left. -/
theorem Sound.exists_le (h : Sound g members d) (hg : g.WellFormed) (nodup : members.Nodup)
    (acyclic : ∀ k, ¬ Relation.TransGen (Inside g members) k k) (ascending : Ascending d.left)
    (n : Nat) : ∃ rest, (Draft.run g n d).placed = d.placed ++ rest ∧
      ∀ ks, d.Completes ks → Sorted.le rest ks = true := by
  induction n generalizing d with
  | zero => exact ⟨[], (List.append_nil _).symm, fun ks _ => Sorted.nil_le ks⟩
  | succ n ih =>
    unfold Draft.run
    split
    · exact ⟨[], (List.append_nil _).symm, fun ks _ => Sorted.nil_le ks⟩
    · next unfinished =>
      obtain ⟨k, hready⟩ := h.exists_ready hg nodup acyclic (left_ne_nil unfinished)
      obtain ⟨hk, ready⟩ := ready?_spec ascending.nodup hready
      have ascending' : Ascending (d.place k).left := by
        rw [left_place]
        exact ascending.filter _
      obtain ⟨rest, placed_eq, least⟩ := ih (h.place hg nodup hk ready) ascending'
      refine ⟨k :: rest, ?_, fun ks hks => ?_⟩
      · rw [step_of_ready hready, placed_eq, List.append_cons]
        rfl
      · cases ks with
        | nil => exact absurd (hks.perm.nil_eq ▸ hk) List.not_mem_nil
        | cons j js =>
          have hj : j ∈ d.left := hks.perm.mem_iff.1 List.mem_cons_self
          have hle := ready?_le ascending hready hj (hks.ready ascending.nodup)
          by_cases heq : k = j
          · subst heq
            exact Sorted.cons_le_cons_iff.2 (.inr ⟨rfl, least js (hks.place ascending.nodup)⟩)
          · exact Sorted.cons_le_cons_iff.2 (.inl (Sorted.lt_of_le_of_ne hle heq))

end Draft

/-! ## The layers of an order -/

namespace MigrationOrder

variable {g : Graph} {ks : List NodeKey} {layer : Option Layer} {u v : NodeKey}

/-- An order of all nodes along which the layers do not descend, and in which each node comes after
what it depends on inside its layer. -/
structure Arrangement (g : Graph) (ks : List NodeKey) : Prop where
  perm : ks.Perm g.keys
  layered : ks.Pairwise fun u v => Layer.rankOf u.layer ≤ Layer.rankOf v.layer
  respects : ∀ u v, g.DependsWithin u v → Before ks v u

/-- The nodes of the first layer come first. -/
theorem filter_append_filter (layered : ks.Pairwise fun u v =>
      Layer.rankOf u.layer ≤ Layer.rankOf v.layer)
    (lowest : ∀ k ∈ ks, k.layer ≠ layer → Layer.rankOf layer < Layer.rankOf k.layer) :
    ks.filter (·.layer = layer) ++ ks.filter (·.layer ≠ layer) = ks := by
  induction ks with
  | nil => rfl
  | cons k rest ih =>
    obtain ⟨above, layered⟩ := List.pairwise_cons.1 layered
    by_cases hk : k.layer = layer
    · rw [List.filter_cons_of_pos (by simpa using hk), List.filter_cons_of_neg (by simpa using hk),
        List.cons_append, ih layered fun j hj => lowest j (List.mem_cons_of_mem k hj)]
    · have beyond : ∀ j ∈ k :: rest, j.layer ≠ layer := by
        refine List.forall_mem_cons.2 ⟨hk, fun j hj heq => ?_⟩
        have hlt := lowest k List.mem_cons_self hk
        have hle := above j hj
        rw [heq] at hle
        omega
      rw [List.filter_eq_nil_iff.2 fun j hj => by simpa using beyond j hj, List.nil_append]
      exact List.filter_eq_self.2 fun j hj => by simpa using beyond j hj

/-- An order along which the layers do not descend is made of its layers, one after the other. -/
theorem flatMap_filter_layers {ls : List (Option Layer)}
    (ascending : ls.Pairwise fun a b => Layer.rankOf a < Layer.rankOf b)
    (layered : ks.Pairwise fun u v => Layer.rankOf u.layer ≤ Layer.rankOf v.layer)
    (all : ∀ k ∈ ks, k.layer ∈ ls) : (ls.flatMap fun layer => ks.filter (·.layer = layer)) = ks := by
  induction ls generalizing ks with
  | nil => exact (List.eq_nil_iff_forall_not_mem.2 fun k hk => absurd (all k hk) List.not_mem_nil).symm
  | cons layer rest ih =>
    obtain ⟨below, ascending⟩ := List.pairwise_cons.1 ascending
    have others : ∀ k ∈ ks, k.layer ≠ layer → k.layer ∈ rest :=
      fun k hk hne => (List.mem_cons.1 (all k hk)).resolve_left hne
    have parts := filter_append_filter layered fun k hk hne => below _ (others k hk hne)
    have later : (rest.flatMap fun l => (ks.filter (·.layer ≠ layer)).filter (·.layer = l)) =
        ks.filter (·.layer ≠ layer) := by
      refine ih ascending (layered.filter _) fun k hk => ?_
      obtain ⟨hk, hne⟩ := List.mem_filter.1 hk
      exact others k hk (of_decide_eq_true hne)
    have same : ∀ l ∈ rest, (ks.filter (·.layer ≠ layer)).filter (·.layer = l) =
        ks.filter (·.layer = l) := by
      intro l hl
      rw [List.filter_filter]
      refine List.filter_congr fun k _ => ?_
      have hne : l ≠ layer := by
        rintro rfl
        exact Nat.lt_irrefl _ (below l hl)
      by_cases hk : k.layer = l <;> simp [hk, hne]
    rw [List.flatMap_congr same] at later
    rw [List.flatMap_cons, later, parts]

theorem Arrangement.filter_perm (h : Arrangement g ks) (layer : Option Layer) :
    (ks.filter (·.layer = layer)).Perm (membersOf g layer) :=
  (h.perm.trans (Sorted.perm_sort g.keys).symm).filter _

/-- What an arrangement has of a layer is an order that completes the layer. -/
theorem Arrangement.completes (h : Arrangement g ks) (hg : g.WellFormed) (layer : Option Layer) :
    (Draft.start g (membersOf g layer)).Completes (ks.filter (·.layer = layer)) where
  perm := by
    rw [Draft.left_start]
    exact h.filter_perm layer
  respects := by
    intro u v hv
    have sound := Draft.sound_start (g := g) (nodup_membersOf hg layer)
    have inside := sound.inside_of_mem hv
    refine (h.respects u v (dependsWithin_of_inside inside)).filter ?_ ?_
    · exact decide_eq_true (mem_membersOf.1 inside.2.1).2
    · exact decide_eq_true (mem_membersOf.1 inside.1).2

/-- Without a circuit in a layer, its order is the least one. -/
theorem placed_le (hg : g.WellFormed) (acyclic : ¬ g.HasLayerCircuit) (h : Arrangement g ks)
    (layer : Option Layer) :
    Sorted.le (draftOf g layer).placed (ks.filter (·.layer = layer)) = true := by
  have members_nodup := nodup_membersOf hg layer
  have sound := Draft.sound_start (g := g) members_nodup
  have noCircuit : ∀ k, ¬ Relation.TransGen (Draft.Inside g (membersOf g layer)) k k :=
    fun k circuit => acyclic
      ⟨k, Relation.TransGen.mono (fun _ _ hab => dependsWithin_of_inside hab) k k circuit⟩
  have ascending : Ascending (Draft.start g (membersOf g layer)).left := by
    rw [Draft.left_start]
    exact ascending_membersOf hg layer
  obtain ⟨rest, placed_eq, least⟩ := sound.exists_le hg members_nodup noCircuit ascending
    (Draft.start g (membersOf g layer)).bound
  have placed_eq' : (draftOf g layer).placed = rest := placed_eq
  rw [placed_eq']
  exact least _ (h.completes hg layer)

/-- Without a circuit inside a layer, nothing is reported, and the sequence is an order of all nodes
along which the layers do not descend and each node comes after what it depends on inside its layer.
Key by key, it is the least of these orders. -/
theorem sequence_least (h : g.Reachable) (acyclic : ¬ g.HasLayerCircuit) :
    (ofGraph g).dropped = [] ∧ Arrangement g (ofGraph g).sequence ∧
    ∀ ks, Arrangement g ks → Sorted.le (ofGraph g).sequence ks = true := by
  have hg := h.wellFormed
  have hnil := (dropped_eq_nil_iff hg).2 acyclic
  refine ⟨hnil, ⟨perm_sequence hg, pairwise_sequence hg,
    fun u v => before_of_dropped_eq_nil hg hnil⟩, fun ks hks => ?_⟩
  have parts := flatMap_filter_layers pairwise_layers hks.layered fun k _ => mem_layers k.layer
  rw [sequence_eq, ← parts]
  refine Sorted.flatMap_le_flatMap (fun layer => ?_) (placed_le hg acyclic hks) layers
  exact ((placed_perm hg layer).trans (hks.filter_perm layer).symm).length_eq

/-- Where a class depends on a later one of its layer, the class between them comes first, and the
table before all of them, although it depends on one. -/
theorem sequence_least_crossing :
    Graph.crossing.Reachable ∧ ¬ Graph.crossing.HasLayerCircuit ∧
    (ofGraph Graph.crossing).sequence =
      [⟨.table, "T"⟩, ⟨.classDef, "B"⟩, ⟨.classDef, "C"⟩, ⟨.classDef, "A"⟩] ∧
    (ofGraph Graph.crossing).dropped = [] ∧
    Arrangement Graph.crossing
      [⟨.table, "T"⟩, ⟨.classDef, "C"⟩, ⟨.classDef, "A"⟩, ⟨.classDef, "B"⟩] ∧
    Sorted.le (ofGraph Graph.crossing).sequence
      [⟨.table, "T"⟩, ⟨.classDef, "C"⟩, ⟨.classDef, "A"⟩, ⟨.classDef, "B"⟩] = true := by
  have reachable : Graph.crossing.Reachable := Graph.reachable_ofSteps _
  have sequence_eq : (ofGraph Graph.crossing).sequence =
      [⟨.table, "T"⟩, ⟨.classDef, "B"⟩, ⟨.classDef, "C"⟩, ⟨.classDef, "A"⟩] := by
    cbv
  have other : Arrangement Graph.crossing
      [⟨.table, "T"⟩, ⟨.classDef, "C"⟩, ⟨.classDef, "A"⟩, ⟨.classDef, "B"⟩] := by
    refine ⟨by decide, by decide, fun u v huv => ?_⟩
    obtain ⟨rfl, rfl⟩ := Graph.dependsWithin_crossing huv
    unfold Before
    decide
  obtain ⟨unreported, -, least⟩ := sequence_least reachable Graph.not_hasLayerCircuit_crossing
  exact ⟨reachable, Graph.not_hasLayerCircuit_crossing, sequence_eq, unreported, other,
    least _ other⟩

end MigrationOrder

end LayerGraph
