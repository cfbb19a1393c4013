import LayerGraph.Proofs.DeclaredGraph

/-!
# Inheritance of merged records

Several records of one entity count as one. What they declare adds up, so each relation to a table, a
procedure or a class is kept. Of their parents only the one of the least text is kept, and it is seen
afterwards whether it counts at all: a blank one does not, and neither does the entity itself. The
empty text sorts before all others and a space before all letters, so one record with such a parent
is enough for the parents of all others to be lost (`inheritance_lost`).

Main statements:
1. `exists_edge_of_declares`: relations of the other kinds survive merging.
2. `exists_inherits_iff`: inheritance survives just if the least parent counts.
3. `inheritance_kept_iff`: what this takes where some parent counts.
-/

namespace LayerGraph

/-- One of the entity's records declares the parent, in these words. -/
def DeclaresParent (rs : List EntityRecord) (k : NodeKey) (p : String) : Prop :=
  ∃ r ∈ rs, r.isNamed = true ∧ r.key = k ∧ r.parentClass = some p

/-- The parent counts for the entity: it is neither blank nor the entity itself. -/
def IsParentOf (p : String) (k : NodeKey) : Prop :=
  Text.trim p ≠ "" ∧ ⟨.classDef, Text.trim p⟩ ≠ k

/-- No other declared parent has a lesser text. -/
def IsLeastParent (rs : List EntityRecord) (k : NodeKey) (p : String) : Prop :=
  DeclaresParent rs k p ∧ ∀ q, DeclaresParent rs k q → p ≤ q

variable {rs : List EntityRecord} {k : NodeKey} {kind : EdgeKind} {target p : String}

theorem DeclaresParent.exists_least (h : DeclaresParent rs k p) : ∃ q, IsLeastParent rs k q := by
  have declared : ∀ q, DeclaresParent rs k q ↔
      q ∈ (rs.filter fun r => r.isNamed && r.key = k).filterMap (·.parentClass) := by
    simp [DeclaresParent, and_assoc]
  obtain ⟨q, least⟩ := List.isSome_min?_of_mem ((declared p).1 h) |> Option.isSome_iff_exists.1
  obtain ⟨hq, below⟩ := List.min?_eq_some_iff.1 least
  exact ⟨q, (declared q).2 hq, fun q' hq' => below q' ((declared q').1 hq')⟩

theorem refers_inherits_iff : Refers rs k .inherits p ↔ IsLeastParent rs k p ∧ IsParentOf p k := by
  have declared : DeclaresParent rs k p ↔
      ∃ r ∈ rs, r.isNamed = true ∧ r.key = k ∧ (EdgeKind.inherits, p) ∈ r.relations := by
    simp [DeclaresParent, EntityRecord.mem_relations, EntityRecord.names]
  have least : (∀ q, DeclaresParent rs k q → p ≤ q) ↔
      ∀ r ∈ rs, r.isNamed = true → r.key = k → ∀ q, r.parentClass = some q → p ≤ q :=
    ⟨fun below r hr named key q hq => below q ⟨r, hr, named, key, hq⟩, by
      rintro below q ⟨r, hr, named, key, hq⟩
      exact below r hr named key q hq⟩
  rw [Refers, Relates, IsLeastParent, declared, least, forall_prop_of_true rfl]
  rfl

theorem exists_resolves (rs : List EntityRecord) (kind : EdgeKind) (target : String) :
    ∃ k, Resolves rs kind target k := by
  by_cases h : Declares rs ⟨kind.targetType, Text.trim target⟩
  · exact ⟨_, .inl ⟨h, rfl⟩⟩
  · exact ⟨_, .inr ⟨h, rfl⟩⟩

namespace Build

/-- Each reference has its edge. -/
theorem exists_edge_of_refers (h : Refers rs k kind target) :
    ∃ e ∈ (ofRecords rs).graph.edges, e.source = k ∧ e.kind = kind := by
  obtain ⟨j, hj⟩ := exists_resolves rs kind target
  exact ⟨⟨k, j, kind⟩, (mem_edges_ofRecords rs _).2 ⟨target, h, hj⟩, rfl, rfl⟩

/-- A relation to a name that counts, if it is not to the parent, survives whatever else the records
of the entity declare. -/
theorem exists_edge_of_declares (hkind : kind ≠ .inherits)
    (declared : ∃ r ∈ rs, r.isNamed = true ∧ r.key = k ∧ (kind, target) ∈ r.relations)
    (named : Text.trim target ≠ "") (other : ⟨kind.targetType, Text.trim target⟩ ≠ k) :
    ∃ e ∈ (ofRecords rs).graph.edges, e.source = k ∧ e.kind = kind :=
  exists_edge_of_refers ⟨⟨declared, fun inherits => absurd inherits hkind⟩, named, other⟩

/-- Inheritance leaves an entity just if the least of its parents counts. -/
theorem exists_inherits_iff : (∃ e ∈ (ofRecords rs).graph.edges, e.source = k ∧ e.kind = .inherits) ↔
    ∃ p, IsLeastParent rs k p ∧ IsParentOf p k := by
  constructor
  · rintro ⟨e, he, rfl, inherits⟩
    obtain ⟨p, refers, -⟩ := (mem_edges_ofRecords rs e).1 he
    rw [inherits] at refers
    exact ⟨p, refers_inherits_iff.1 refers⟩
  · rintro ⟨p, least⟩
    exact exists_edge_of_refers (refers_inherits_iff.2 least)

/-- Where some record of an entity declares a parent that counts, inheritance is kept just if each
declared parent that does not count has one below it that does. In particular it is kept if none of
the parents is blank or the entity itself. -/
theorem inheritance_kept_iff (counts : ∃ p, DeclaresParent rs k p ∧ IsParentOf p k) :
    (∃ e ∈ (ofRecords rs).graph.edges, e.source = k ∧ e.kind = .inherits) ↔
      ∀ q, DeclaresParent rs k q → ¬ IsParentOf q k →
        ∃ p, DeclaresParent rs k p ∧ IsParentOf p k ∧ p < q := by
  rw [exists_inherits_iff]
  constructor
  · rintro ⟨p, ⟨declared, below⟩, isParent⟩ q hq hnot
    refine ⟨p, declared, isParent, lt_of_le_of_ne (below q hq) ?_⟩
    rintro rfl
    exact hnot isParent
  · intro spared
    obtain ⟨p₀, declared₀, -⟩ := counts
    obtain ⟨p, least⟩ := declared₀.exists_least
    refine ⟨p, least, ?_⟩
    by_contra hnot
    obtain ⟨q, declared, -, lower⟩ := spared p least.1 hnot
    exact absurd (least.2 q declared) (not_le.2 lower)

/-- A class whose second record names the class itself as its parent, behind a parent of lesser
text. -/
def twofold : List EntityRecord :=
  [{ kind := .classDef, name := "M", parentClass := some "B" },
    { kind := .classDef, name := "M", parentClass := some "M" }]

theorem inheritance_kept_iff_twofold :
    (∃ p, DeclaresParent twofold ⟨.classDef, "M"⟩ p ∧ IsParentOf p ⟨.classDef, "M"⟩) ∧
      ∃ e ∈ (ofRecords twofold).graph.edges, e.source = ⟨.classDef, "M"⟩ ∧ e.kind = .inherits := by
  have parents : ∀ p, DeclaresParent twofold ⟨.classDef, "M"⟩ p ↔ "B" = p ∨ "M" = p := by
    have named : Text.isBlankText "M" = false := by decide
    have trimmed : Text.trim "M" = "M" := by decide
    simp [DeclaresParent, twofold, EntityRecord.isNamed, EntityRecord.key, EntityKind.nodeType,
      named, trimmed]
  have base : DeclaresParent twofold ⟨.classDef, "M"⟩ "B" ∧ IsParentOf "B" ⟨.classDef, "M"⟩ :=
    ⟨(parents "B").2 (.inl rfl), by decide, by decide⟩
  refine ⟨⟨"B", base⟩, (inheritance_kept_iff ⟨"B", base⟩).2 fun q declared hnot => ?_⟩
  obtain rfl | rfl := (parents q).1 declared
  · exact absurd base.2 hnot
  · exact ⟨"B", base.1, base.2, by decide⟩

/-- A class with a parent and a second record whose parent is blank, and a class with a parent and a
second record that names the class itself. -/
def obscured : List EntityRecord :=
  [{ kind := .classDef, name := "A", parentClass := some "B" },
    { kind := .classDef, name := "A", parentClass := some " " },
    { kind := .classDef, name := "M", parentClass := some "N" },
    { kind := .classDef, name := "M", parentClass := some "M" }]

/-- Each of the two classes declares a parent that counts, and yet no inheritance leaves either. -/
theorem inheritance_lost :
    (∃ p, DeclaresParent obscured ⟨.classDef, "A"⟩ p ∧ IsParentOf p ⟨.classDef, "A"⟩) ∧
      (∃ p, DeclaresParent obscured ⟨.classDef, "M"⟩ p ∧ IsParentOf p ⟨.classDef, "M"⟩) ∧
        ¬ ∃ e ∈ (ofRecords obscured).graph.edges, e.kind = .inherits := by
  have trimmed : Text.trim "M" = "M" := by decide
  have parents : ∀ k p, DeclaresParent obscured k p ↔
      ⟨.classDef, "A"⟩ = k ∧ ("B" = p ∨ " " = p) ∨ ⟨.classDef, "M"⟩ = k ∧ ("N" = p ∨ "M" = p) := by
    have named : Text.isBlankText "A" = false ∧ Text.isBlankText "M" = false := by decide
    have trimmed' : Text.trim "A" = "A" := by decide
    simp [DeclaresParent, obscured, EntityRecord.isNamed, EntityRecord.key, EntityKind.nodeType,
      named, trimmed, trimmed', and_or_left, or_assoc]
  refine ⟨⟨"B", (parents _ _).2 (.inl ⟨rfl, .inl rfl⟩), by decide, by decide⟩,
    ⟨"N", (parents _ _).2 (.inr ⟨rfl, .inl rfl⟩), by decide, by decide⟩, ?_⟩
  rintro ⟨e, he, inherits⟩
  obtain ⟨p, ⟨declared, least⟩, not_blank, other⟩ := exists_inherits_iff.1 ⟨e, he, rfl, inherits⟩
  rcases (parents e.source p).1 declared with ⟨source, rfl | rfl⟩ | ⟨source, rfl | rfl⟩
  · exact absurd (least " " ((parents _ _).2 (.inl ⟨source, .inr rfl⟩))) (by decide)
  · exact not_blank (by decide)
  · exact absurd (least "M" ((parents _ _).2 (.inr ⟨source, .inr rfl⟩))) (by decide)
  · exact other (trimmed.symm ▸ source)

end Build

end LayerGraph
