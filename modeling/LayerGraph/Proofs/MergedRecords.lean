import LayerGraph.Build
import Mathlib.Data.List.Induction

/-!
# Records that have been brought together

Records are brought together one at a time, in two maps and a list of warnings. What the maps hold at
any time is said here by the records that have come so far: under each key, what its records declare
together and how many came after the first one.

Main statements:
1. `Holds.add`, `holds_ofRecords`: what one more record changes, and what all of them lead to.
2. `Build.ofRecords_eq`: the build in terms of the whole list of records.
-/

namespace LayerGraph

/-- What the records of the entity `key` declare together. -/
def Declaration.ofRecords (key : NodeKey) (records : List EntityRecord) : Declaration :=
  (records.filter (·.key = key)).foldl merge { key }

/-- The keys of the records that have a name. -/
def namedKeys (records : List EntityRecord) : List NodeKey :=
  (records.filter EntityRecord.isNamed).map EntityRecord.key

namespace Build

/-- The declarations of a list of records, in key order. -/
def declarations (records : List EntityRecord) : List Declaration :=
  (Sorted.distinct (namedKeys records)).map fun k =>
    Declaration.ofRecords k (records.filter EntityRecord.isNamed)

/-- One warning for each record without a name, in the order of the records. -/
def unnamedWarnings (records : List EntityRecord) : List BuildWarning :=
  (records.filter fun r => !r.isNamed).map fun r => .unnamedRecord r.kind

/-- The keys that several records share, each once. -/
def sharedKeys (records : List EntityRecord) : List NodeKey :=
  (Sorted.distinct (namedKeys records)).filter fun k => 1 < (namedKeys records).count k

/-- One warning for each key that several records share, in key order. -/
def duplicateWarnings (records : List EntityRecord) : List BuildWarning :=
  (sharedKeys records).map .duplicateRecord

end Build

namespace Merged

variable {rs : List EntityRecord} {m : Merged} {k : NodeKey} {r : EntityRecord}

/-- What the maps and the warnings hold when these records have come. -/
structure Holds (rs : List EntityRecord) (m : Merged) : Prop where
  declared : ∀ k, m.declared[k]? = if k ∈ namedKeys rs
    then some (Declaration.ofRecords k (rs.filter EntityRecord.isNamed)) else none
  repeated : ∀ k, m.repeated[k]? = if 1 < (namedKeys rs).count k
    then some ((namedKeys rs).count k - 1) else none
  warnings : m.warnings = Build.unnamedWarnings rs

theorem holds_empty : Holds [] {} where
  declared _ := Std.TreeMap.getElem?_emptyc
  repeated _ := Std.TreeMap.getElem?_emptyc
  warnings := rfl

/-! ## One more record -/

theorem filter_isNamed_concat (named : r.isNamed = true) :
    (rs ++ [r]).filter EntityRecord.isNamed = rs.filter EntityRecord.isNamed ++ [r] := by
  rw [List.filter_append, List.filter_cons_of_pos named, List.filter_nil]

theorem namedKeys_concat (named : r.isNamed = true) :
    namedKeys (rs ++ [r]) = namedKeys rs ++ [r.key] := by
  rw [namedKeys, filter_isNamed_concat named, List.map_append]
  rfl

theorem count_concat (named : r.isNamed = true) (k : NodeKey) :
    (namedKeys (rs ++ [r])).count k = (namedKeys rs).count k + if r.key = k then 1 else 0 := by
  rw [namedKeys_concat named, List.count_append, List.count_singleton]
  simp only [beq_iff_eq]

theorem declaration_concat (k : NodeKey) (rs : List EntityRecord) (r : EntityRecord) :
    Declaration.ofRecords k (rs ++ [r]) =
      if r.key = k then (Declaration.ofRecords k rs).merge r else Declaration.ofRecords k rs := by
  rw [Declaration.ofRecords, List.filter_append, List.foldl_append]
  by_cases same : r.key = k
  · rw [if_pos same, List.filter_cons_of_pos (by simpa using same)]
    rfl
  · rw [if_neg same, List.filter_cons_of_neg (by simpa using same)]
    rfl

theorem ofRecords_of_notMem (new : k ∉ namedKeys rs) :
    Declaration.ofRecords k (rs.filter EntityRecord.isNamed) = { key := k } := by
  have none_left : (rs.filter EntityRecord.isNamed).filter (·.key = k) = [] := by
    refine List.filter_eq_nil_iff.2 fun r hr hkey => new ?_
    exact List.mem_map.2 ⟨r, hr, of_decide_eq_true hkey⟩
  rw [Declaration.ofRecords, none_left]
  rfl

/-- A record without a name only adds its warning. -/
theorem Holds.add_unnamed (h : Holds rs m) (unnamed : r.isNamed = false) :
    Holds (rs ++ [r]) (m.add r) := by
  have absent : ¬ r.isNamed = true := by
    rw [unnamed]
    exact Bool.false_ne_true
  have same : (rs ++ [r]).filter EntityRecord.isNamed = rs.filter EntityRecord.isNamed := by
    rw [List.filter_append, List.filter_cons_of_neg absent]
    exact List.append_nil _
  rw [add, if_neg absent]
  constructor
  · unfold namedKeys
    rw [same]
    exact h.declared
  · unfold namedKeys
    rw [same]
    exact h.repeated
  · show m.warnings ++ _ = _
    rw [h.warnings, Build.unnamedWarnings, Build.unnamedWarnings, List.filter_append,
      List.filter_cons_of_pos (by rw [unnamed]; rfl), List.map_append]
    rfl

theorem unnamedWarnings_concat (named : r.isNamed = true) :
    Build.unnamedWarnings (rs ++ [r]) = Build.unnamedWarnings rs := by
  rw [Build.unnamedWarnings, List.filter_append, List.filter_cons_of_neg (by rw [named]; nofun)]
  exact congrArg _ (List.append_nil _)

/-- What is declared under each key when one more record with a name has come. -/
theorem Holds.declared_concat (h : Holds rs m) (named : r.isNamed = true) (k : NodeKey) :
    (m.declared.insert r.key ((m.declared.getD r.key { key := r.key }).merge r))[k]? =
      if k ∈ namedKeys (rs ++ [r])
      then some (Declaration.ofRecords k ((rs ++ [r]).filter EntityRecord.isNamed)) else none := by
  rw [Sorted.getElem?_insert, namedKeys_concat named, filter_isNamed_concat named, declaration_concat]
  by_cases same : r.key = k
  · subst same
    have here : r.key ∈ namedKeys rs ++ [r.key] := List.mem_append_right _ List.mem_cons_self
    have before : m.declared.getD r.key { key := r.key } =
        Declaration.ofRecords r.key (rs.filter EntityRecord.isNamed) := by
      rw [Std.TreeMap.getD_eq_getD_getElem?, h.declared]
      split
      · rfl
      · next new => exact (ofRecords_of_notMem new).symm
    rw [if_pos rfl, if_pos here, if_pos rfl, before]
  · have iff : k ∈ namedKeys rs ++ [r.key] ↔ k ∈ namedKeys rs := by
      simp [Ne.symm same]
    rw [if_neg (Ne.symm same), if_neg same, h.declared]
    simp only [iff]

/-- The first record of its key. -/
theorem Holds.add_new (h : Holds rs m) (named : r.isNamed = true)
    (absent : m.declared[r.key]? = none) : Holds (rs ++ [r]) (m.add r) := by
  have declared := h.declared_concat named
  rw [Std.TreeMap.getD_eq_getD_getElem?, absent] at declared
  have new : r.key ∉ namedKeys rs := fun old => by
    have here := h.declared r.key
    rw [absent, if_pos old] at here
    cases here
  rw [add, if_pos named, absent]
  refine ⟨declared, fun k => ?_, h.warnings.trans (unnamedWarnings_concat named).symm⟩
  rw [h.repeated, count_concat named]
  by_cases same : r.key = k
  · subst same
    rw [List.count_eq_zero.2 new, if_pos rfl]
    rfl
  · rw [if_neg same]
    rfl

/-- A record whose key has come before. -/
theorem Holds.add_again {d : Declaration} (h : Holds rs m) (named : r.isNamed = true)
    (found : m.declared[r.key]? = some d) : Holds (rs ++ [r]) (m.add r) := by
  have declared := h.declared_concat named
  rw [Std.TreeMap.getD_eq_getD_getElem?, found] at declared
  have old : 0 < (namedKeys rs).count r.key := by
    refine List.count_pos_iff.2 ?_
    by_contra new
    have here := h.declared r.key
    rw [found, if_neg new] at here
    cases here
  rw [add, if_pos named, found]
  refine ⟨declared, fun k => ?_, h.warnings.trans (unnamedWarnings_concat named).symm⟩
  show (m.repeated.insert r.key (m.repeated.getD r.key 0 + 1))[k]? = _
  rw [Sorted.getElem?_insert, count_concat named]
  by_cases same : r.key = k
  · subst same
    rw [if_pos rfl, if_pos rfl, if_pos (Nat.lt_add_of_pos_left old),
      Std.TreeMap.getD_eq_getD_getElem?, h.repeated]
    by_cases several : 1 < (namedKeys rs).count r.key
    · rw [if_pos several]
      exact congrArg some (Nat.sub_add_cancel (Nat.le_of_lt several))
    · have single : (namedKeys rs).count r.key = 1 := by omega
      rw [if_neg several, single]
      rfl
  · rw [if_neg (Ne.symm same), if_neg same]
    exact h.repeated k

theorem Holds.add (h : Holds rs m) (r : EntityRecord) : Holds (rs ++ [r]) (m.add r) := by
  cases named : r.isNamed with
  | false => exact h.add_unnamed named
  | true =>
    cases found : m.declared[r.key]? with
    | none => exact h.add_new named found
    | some d => exact h.add_again named found

theorem holds_ofRecords (rs : List EntityRecord) : Holds rs (ofRecords rs) := by
  induction rs using List.reverseRecOn with
  | nil => exact holds_empty
  | append_singleton rs r ih =>
    rw [ofRecords, List.foldl_append]
    exact ih.add r

/-! ## All records -/

theorem mem_sharedKeys_iff_count : k ∈ Build.sharedKeys rs ↔ 1 < (namedKeys rs).count k := by
  rw [Build.sharedKeys, List.mem_filter, Sorted.mem_distinct, decide_eq_true_iff]
  exact and_iff_right_of_imp fun several => List.count_pos_iff.1 (Nat.lt_of_succ_lt several)

theorem declarations_ofRecords (rs : List EntityRecord) :
    (ofRecords rs).declarations = Build.declarations rs := by
  have holds := holds_ofRecords rs
  have keys (k : NodeKey) :
      k ∈ (ofRecords rs).declared ↔ k ∈ Sorted.distinct (namedKeys rs) := by
    rw [Std.TreeMap.mem_iff_isSome_getElem?, holds.declared, Sorted.mem_distinct]
    split <;> simp_all
  have listed := Sorted.toList_eq_map (Sorted.pairwise_distinct _) keys fun k hk => by
    rw [holds.declared, if_pos (Sorted.mem_distinct.1 hk)]
  rw [declarations, listed, List.map_map]
  rfl

theorem allWarnings_ofRecords (rs : List EntityRecord) : (ofRecords rs).allWarnings =
    Build.unnamedWarnings rs ++ Build.duplicateWarnings rs := by
  have holds := holds_ofRecords rs
  have keys (k : NodeKey) : k ∈ (ofRecords rs).repeated ↔ k ∈ Build.sharedKeys rs := by
    rw [Std.TreeMap.mem_iff_isSome_getElem?, holds.repeated, mem_sharedKeys_iff_count]
    split <;> simp_all
  have ascending : Sorted.Ascending (Build.sharedKeys rs) :=
    (Sorted.pairwise_distinct (namedKeys rs)).filter _
  have listed := Sorted.toList_eq_map ascending keys fun k hk => by
    rw [holds.repeated, if_pos (mem_sharedKeys_iff_count.1 hk)]
  rw [allWarnings, holds.warnings, listed, List.map_map]
  rfl

end Merged

/-- The build in terms of the whole list of records. -/
theorem Build.ofRecords_eq (rs : List EntityRecord) : ofRecords rs =
    ((declarations rs).flatMap Declaration.links).foldl addLink
      { graph := nodesOf (declarations rs)
        warnings := unnamedWarnings rs ++ duplicateWarnings rs } := by
  rw [ofRecords, Merged.declarations_ofRecords, Merged.allWarnings_ofRecords]

end LayerGraph
