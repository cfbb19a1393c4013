import LayerGraph.Sorted

/-!
# Lists by key

Things that are put behind those with the same key, one after another. The keys come in ascending
order, and behind each of them its things in the order in which they were put there.

Main statements:
1. `of_push`, `mem_push`: what one more thing changes.
2. `of_group`, `mem_group`: what a list of things leads to.
3. `toList_group`: the keys and their things as a list.
-/

namespace LayerGraph

/-- Lists by key. -/
abbrev Multimap (κ α : Type) [Ord κ] := Std.TreeMap κ (List α)

namespace Multimap

variable {κ α ρ : Type} [Ord κ]

/-- The things with a key. -/
def of (m : Multimap κ α) (k : κ) : List α :=
  m.getD k []

/-- Puts one more thing behind those with its key. -/
def push (m : Multimap κ α) (k : κ) (a : α) : Multimap κ α :=
  m.insert k (m.of k ++ [a])

/-- The things of a list by their keys. -/
def group (key : ρ → κ) (thing : ρ → α) (rows : List ρ) : Multimap κ α :=
  rows.foldl (fun m row => m.push (key row) (thing row)) {}

section Lemmas

variable [Std.TransOrd κ] [Std.LawfulEqOrd κ] {m : Multimap κ α} {j k : κ} {a : α}

theorem of_push [DecidableEq κ] :
    (m.push k a).of j = if j = k then m.of j ++ [a] else m.of j := by
  unfold push of
  rw [Std.TreeMap.getD_eq_getD_getElem?, Sorted.getElem?_insert]
  by_cases same : j = k
  · subst same
    rw [if_pos rfl, if_pos rfl]
    rfl
  · rw [if_neg same, if_neg same, Std.TreeMap.getD_eq_getD_getElem?]

theorem mem_push : j ∈ m.push k a ↔ j = k ∨ j ∈ m := by
  unfold push
  rw [Std.TreeMap.mem_insert]
  refine or_congr_left ⟨fun heq => (Std.LawfulEqOrd.eq_of_compare heq).symm, ?_⟩
  rintro rfl
  exact Std.ReflCmp.compare_self

theorem of_foldl_push [DecidableEq κ] (key : ρ → κ) (thing : ρ → α) (rows : List ρ) :
    (rows.foldl (fun m row => m.push (key row) (thing row)) m).of k =
      m.of k ++ (rows.filter (key · = k)).map thing := by
  induction rows generalizing m with
  | nil => simp
  | cons row rest ih =>
    rw [List.foldl_cons, ih, of_push]
    by_cases same : key row = k
    · simp [same]
    · simp [same, Ne.symm same]

theorem mem_foldl_push (key : ρ → κ) (thing : ρ → α) (rows : List ρ) :
    k ∈ rows.foldl (fun m row => m.push (key row) (thing row)) m ↔ k ∈ m ∨ k ∈ rows.map key := by
  induction rows generalizing m with
  | nil => simp
  | cons row rest ih =>
    rw [List.foldl_cons, ih, mem_push, List.map_cons, List.mem_cons, or_assoc, or_left_comm]

theorem of_group [DecidableEq κ] (key : ρ → κ) (thing : ρ → α) (rows : List ρ) (k : κ) :
    (group key thing rows).of k = (rows.filter (key · = k)).map thing := by
  have start : of ({} : Multimap κ α) k = [] := Std.TreeMap.getD_emptyc
  rw [group, of_foldl_push, start, List.nil_append]

theorem mem_group (key : ρ → κ) (thing : ρ → α) (rows : List ρ) (k : κ) :
    k ∈ group key thing rows ↔ k ∈ rows.map key := by
  rw [group, mem_foldl_push, or_iff_right Std.TreeMap.not_mem_emptyc]

/-- The keys are those of the list, each once and in order. -/
theorem toList_group [DecidableEq κ] (key : ρ → κ) (thing : ρ → α) (rows : List ρ) :
    (group key thing rows).toList =
      (Sorted.distinct (rows.map key)).map fun k => (k, (rows.filter (key · = k)).map thing) := by
  have keys (k : κ) : k ∈ group key thing rows ↔ k ∈ Sorted.distinct (rows.map key) := by
    rw [mem_group, Sorted.mem_distinct]
  refine Sorted.toList_eq_map (Sorted.pairwise_distinct _) keys fun k hk => ?_
  obtain ⟨things, found⟩ := Option.isSome_iff_exists.1
    (Std.TreeMap.mem_iff_isSome_getElem?.1 ((keys k).2 hk))
  have same := of_group key thing rows k
  rw [of, Std.TreeMap.getD_eq_getD_getElem?, found] at same
  rw [found]
  exact congrArg some same

end Lemmas

end Multimap

end LayerGraph
