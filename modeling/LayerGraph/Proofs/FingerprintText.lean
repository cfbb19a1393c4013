import LayerGraph.Proofs.CopiedGraph
import LayerGraph.Proofs.SameGraph

/-!
# What the fingerprint text tells

The fingerprint text puts names between bars as they stand. A name that holds a bar, the name of a
type and a colon reads as if another key began inside it, so graphs that differ may have the same
text. Of graphs without such names the text tells all but the order of growth.

Main statements:
1. `eq_of_append_eq`: where the next key begins is where a text without marks ends.
2. `Line.textOf_injective`: lines whose names hold no mark are told by their text.
3. `same_iff_fingerprintText_eq`: so are graphs, and by their fingerprints as far as digests are.
4. `fingerprintText_clash`: without this condition they are not.
-/

namespace LayerGraph

/-! ## Marks -/

/-- What begins a key within a line: a bar, the name of the type and a colon. -/
def NodeType.mark (t : NodeType) : List Char :=
  '|' :: (t.name.toList ++ [':'])

/-- No key seems to begin within the text. -/
def MarkFree (cs : List Char) : Prop :=
  ∀ t : NodeType, ¬ t.mark <:+: cs

/-- The text is at its end, or a key begins. -/
def AtMark (cs : List Char) : Prop :=
  cs = [] ∨ ∃ (t : NodeType) (rest : List Char), cs = t.mark ++ rest

section Marks

variable {a b x y : List Char} {t t' : NodeType}

theorem bar_notMem_tail_mark (t : NodeType) : '|' ∉ t.name.toList ++ [':'] := by
  cases t <;> decide

theorem mark_append_inj (h : t.mark ++ x = t'.mark ++ y) : t = t' ∧ x = y := by
  cases t <;> cases t' <;> simp [NodeType.mark, NodeType.name] at h ⊢ <;> exact h

/-- A mark has one bar only, at its front. -/
theorem bar_notMem_of_append_eq_mark {c : Char} (h : c :: (x ++ y) = t.mark) : '|' ∉ y := by
  obtain ⟨-, htail⟩ := List.cons.inj h
  intro hbar
  exact bar_notMem_tail_mark t (htail ▸ List.mem_append_right x hbar)

theorem markFree_of_colon_notMem (h : ':' ∉ a) : MarkFree a := by
  rintro t ⟨front, back, rfl⟩
  exact h (by simp [NodeType.mark])

theorem markFree_of_bar_notMem (h : '|' ∉ a) : MarkFree a := by
  rintro t ⟨front, back, rfl⟩
  exact h (by simp [NodeType.mark])

theorem MarkFree.append (ha : MarkFree a) (hb : MarkFree ('|' :: b)) :
    MarkFree (a ++ '|' :: b) := by
  intro t hmark
  rcases List.infix_append_iff.1 hmark with hmark | hmark | ⟨front, back, split, hfront, hback⟩
  · exact ha t hmark
  · exact hb t hmark
  · cases front with
    | nil => exact hb t (split ▸ hback.isInfix)
    | cons c front =>
      cases back with
      | nil => exact ha t (split ▸ (List.append_nil _).symm ▸ hfront.isInfix)
      | cons d back =>
        -- the mark would have a second bar where the two parts meet
        obtain ⟨rfl, -⟩ := List.cons_prefix_cons.1 hback
        exact bar_notMem_of_append_eq_mark split.symm (List.mem_cons_self ..)

/-- A text without marks cannot go on past the place where a key begins. -/
theorem eq_nil_of_atMark {c : List Char} (free : MarkFree (a ++ c)) (hx : AtMark (c ++ y))
    (hy : AtMark y) : c = [] := by
  rcases hx with hx | ⟨t, rest, hx⟩
  · exact (List.append_eq_nil_iff.1 hx).1
  rcases List.append_eq_append_iff.1 hx with ⟨more, hmark, rfl⟩ | ⟨more, rfl, -⟩
  · cases c with
    | nil => rfl
    | cons d c =>
      exfalso
      cases more with
      | nil =>
        rw [List.append_nil] at hmark
        exact free t (hmark ▸ (List.suffix_append a _).isInfix)
      | cons d' more =>
        -- the mark would have a second bar where the next key begins
        rcases hy with hy | ⟨t', rest', hy⟩
        · exact List.cons_ne_nil _ _ hy
        · obtain ⟨rfl, -⟩ := List.cons.inj hy
          exact bar_notMem_of_append_eq_mark hmark.symm (List.mem_cons_self ..)
  · exact absurd ⟨a, more, by simp⟩ (free t)

/-- Two texts without marks end where the next key begins, so they are the same if they are so with
what follows. -/
theorem eq_of_append_eq (ha : MarkFree a) (hb : MarkFree b) (hx : AtMark x) (hy : AtMark y)
    (h : a ++ x = b ++ y) : a = b ∧ x = y := by
  rcases List.append_eq_append_iff.1 h with ⟨c, rfl, rfl⟩ | ⟨c, rfl, rfl⟩
  · obtain rfl := eq_nil_of_atMark hb hx hy
    simp
  · obtain rfl := eq_nil_of_atMark ha hy hx
    simp

/-- Two texts are cut at their last bar. -/
theorem eq_of_append_bar_eq (hx : '|' ∉ x) (hy : '|' ∉ y) (h : a ++ '|' :: x = b ++ '|' :: y) :
    a = b ∧ x = y := by
  have cut : ∀ {x y c : List Char}, '|' ∉ x → '|' :: x = c ++ '|' :: y → c = [] := by
    intro x y c hx hc
    cases c with
    | nil => rfl
    | cons d c =>
      obtain ⟨-, rfl⟩ := List.cons.inj hc
      exact absurd (by simp) hx
  rcases List.append_eq_append_iff.1 h with ⟨c, rfl, hc⟩ | ⟨c, rfl, hc⟩
  · obtain rfl := cut hx hc
    simpa using hc
  · obtain rfl := cut hy hc
    simpa using hc.symm

end Marks

/-! ## Fields -/

/-- What may stand in the last field of a line. -/
structure IsField (cs : List Char) : Prop where
  bar : '|' ∉ cs
  newline : '\n' ∉ cs
  colon : ':' ∉ cs

theorem isField_kind (kind : EdgeKind) : IsField kind.name.toList := by
  cases kind <;> exact ⟨by decide, by decide, by decide⟩

theorem isDigit_or_eq_of_mem_order {i : Int} {c : Char} (h : c ∈ (toString i).toList) :
    c.isDigit = true ∨ c = '-' := by
  have digits : ∀ {n : Nat}, c ∈ n.repr.toList → c.isDigit = true := by
    intro n hc
    rw [Nat.toList_repr] at hc
    exact Nat.isDigit_of_mem_toDigits (by decide) (by decide) hc
  cases i with
  | ofNat n => exact .inl (digits h)
  | negSucc n =>
    replace h : c ∈ ("-" ++ n.succ.repr).toList := h
    rw [String.toList_append, List.mem_append] at h
    exact h.symm.imp digits List.mem_singleton.1

theorem isField_order (i : Int) : IsField (toString i).toList := by
  have notMem : ∀ c : Char, c.isDigit = false → c ≠ '-' → c ∉ (toString i).toList := by
    intro c digit dash h
    rcases isDigit_or_eq_of_mem_order h with h | h
    · exact Bool.false_ne_true (digit.symm.trans h)
    · exact dash h
  exact ⟨notMem _ (by decide) (by decide), notMem _ (by decide) (by decide),
    notMem _ (by decide) (by decide)⟩

/-! ## Lines -/

/-- A line of the fingerprint text. -/
inductive Line
  | node (n : Node)
  | edge (e : Edge)

/-- A key within a line. -/
def NodeKey.marked (k : NodeKey) : List Char :=
  k.type.mark ++ k.name.toList

/-- The name of a layer within a line. -/
def Layer.field (l : Option Layer) : List Char :=
  ((l.map Layer.name).getD "-").toList

theorem colon_notMem_field (l : Option Layer) : ':' ∉ Layer.field l := by
  cases l with
  | none => decide
  | some l => cases l <;> decide

namespace Line

/-- The text of a line. -/
def chars : Line → List Char
  | node n =>
    'N' :: (n.key.marked ++ '|' :: (Layer.field n.layer ++
      '|' :: ((toString n.order).toList ++ ['\n'])))
  | edge e =>
    'E' :: (e.source.marked ++ (e.target.marked ++ '|' :: (e.kind.name.toList ++ ['\n'])))

/-- The text of several lines. -/
def textOf (ls : List Line) : List Char :=
  ls.flatMap chars

/-- The node that a line is about. -/
def node? : Line → Option Node
  | node n => some n
  | edge _ => none

/-- The edge that a line is about. -/
def edge? : Line → Option Edge
  | node _ => none
  | edge e => some e

/-- The keys in a line. -/
def keys : Line → List NodeKey
  | node n => [n.key]
  | edge e => [e.source, e.target]

/-- No name in the line holds a mark. -/
def Plain (l : Line) : Prop :=
  ∀ k ∈ l.keys, MarkFree k.name.toList

variable {ls ls' : List Line}

theorem textOf_node (n : Node) (ls : List Line) :
    textOf (node n :: ls) = 'N' :: (n.key.type.mark ++ (n.key.name.toList ++
      '|' :: (Layer.field n.layer ++
        '|' :: ((toString n.order).toList ++ '\n' :: textOf ls)))) := by
  simp [textOf, chars, NodeKey.marked]

theorem textOf_edge (e : Edge) (ls : List Line) :
    textOf (edge e :: ls) = 'E' :: (e.source.type.mark ++ (e.source.name.toList ++
      (e.target.type.mark ++ (e.target.name.toList ++
        '|' :: (e.kind.name.toList ++ '\n' :: textOf ls))))) := by
  simp [textOf, chars, NodeKey.marked]

/-- Lines begin with a letter, and the first key follows. -/
theorem exists_letter (ls : List Line) :
    ∃ letter rest, textOf ls = letter ++ rest ∧ IsField letter ∧ AtMark rest := by
  cases ls with
  | nil => exact ⟨[], [], rfl, ⟨by decide, by decide, by decide⟩, .inl rfl⟩
  | cons l ls =>
    cases l with
    | node n =>
      have letter : IsField ['N'] := ⟨by decide, by decide, by decide⟩
      exact ⟨['N'], _, textOf_node n ls, letter, .inr ⟨n.key.type, _, rfl⟩⟩
    | edge e =>
      have letter : IsField ['E'] := ⟨by decide, by decide, by decide⟩
      exact ⟨['E'], _, textOf_edge e ls, letter, .inr ⟨e.source.type, _, rfl⟩⟩

/-- The end of a line, from its last name on, is told from the lines behind it. -/
theorem eq_of_end_eq {a a' field field' : List Char} (ha : MarkFree a) (ha' : MarkFree a')
    (hfield : IsField field) (hfield' : IsField field')
    (h : a ++ '|' :: (field ++ '\n' :: textOf ls) = a' ++ '|' :: (field' ++ '\n' :: textOf ls')) :
    a = a' ∧ field = field' ∧ textOf ls = textOf ls' := by
  obtain ⟨letter, rest, htext, hletter, hrest⟩ := exists_letter ls
  obtain ⟨letter', rest', htext', hletter', hrest'⟩ := exists_letter ls'
  have free : ∀ {a field letter : List Char}, MarkFree a → IsField field → IsField letter →
      '|' ∉ field ++ '\n' :: letter ∧ MarkFree (a ++ '|' :: (field ++ '\n' :: letter)) := by
    intro a field letter ha hfield hletter
    have colon : ':' ∉ '|' :: (field ++ '\n' :: letter) := by
      simp [hfield.colon, hletter.colon]
    exact ⟨by simp [hfield.bar, hletter.bar], ha.append (markFree_of_colon_notMem colon)⟩
  have split : (a ++ '|' :: (field ++ '\n' :: letter)) ++ rest =
      (a' ++ '|' :: (field' ++ '\n' :: letter')) ++ rest' := by
    rw [htext, htext'] at h
    simpa using h
  obtain ⟨bar, hend⟩ := free ha hfield hletter
  obtain ⟨bar', hend'⟩ := free ha' hfield' hletter'
  obtain ⟨ends, rfl⟩ := eq_of_append_eq hend hend' hrest hrest' split
  obtain ⟨rfl, fields⟩ := eq_of_append_bar_eq bar bar' ends
  obtain ⟨rfl, -, rfl⟩ := (List.append_cons_inj_of_notMem hfield.newline hletter.newline).1 fields
  exact ⟨rfl, rfl, htext.trans htext'.symm⟩

theorem field_injective {kind kind' : EdgeKind} (h : kind.name.toList = kind'.name.toList) :
    kind = kind' := by
  cases kind <;> cases kind' <;> simp [EdgeKind.name] at h ⊢

theorem node_cons_inj {n n' : Node} (plain : (node n).Plain) (plain' : (node n').Plain)
    (h : textOf (node n :: ls) = textOf (node n' :: ls')) : n = n' ∧ textOf ls = textOf ls' := by
  have free : ∀ {n : Node}, (node n).Plain →
      MarkFree (n.key.name.toList ++ '|' :: Layer.field n.layer) := by
    intro n plain
    refine (plain n.key (List.mem_singleton_self _)).append (markFree_of_colon_notMem ?_)
    simpa using colon_notMem_field n.layer
  rw [textOf_node, textOf_node] at h
  obtain ⟨type_eq, h⟩ := mark_append_inj (List.cons.inj h).2
  have ends : (n.key.name.toList ++ '|' :: Layer.field n.layer) ++
        '|' :: ((toString n.order).toList ++ '\n' :: textOf ls) =
      (n'.key.name.toList ++ '|' :: Layer.field n'.layer) ++
        '|' :: ((toString n'.order).toList ++ '\n' :: textOf ls') := by
    simpa using h
  obtain ⟨names, orders, rest⟩ :=
    eq_of_end_eq (free plain) (free plain') (isField_order _) (isField_order _) ends
  -- the layer follows from the type
  have layer_eq : n.layer = n'.layer := congrArg NodeType.layer type_eq
  rw [layer_eq] at names
  have name_eq := String.toList_inj.1 (List.append_cancel_right names)
  have order_eq := Int.repr_injective (String.toList_inj.1 orders)
  obtain ⟨⟨type, name⟩, order⟩ := n
  obtain ⟨⟨type', name'⟩, order'⟩ := n'
  obtain rfl : type = type' := type_eq
  obtain rfl : name = name' := name_eq
  obtain rfl : order = order' := order_eq
  exact ⟨rfl, rest⟩

theorem edge_cons_inj {e e' : Edge} (plain : (edge e).Plain) (plain' : (edge e').Plain)
    (h : textOf (edge e :: ls) = textOf (edge e' :: ls')) : e = e' ∧ textOf ls = textOf ls' := by
  obtain ⟨source, target⟩ : MarkFree e.source.name.toList ∧ MarkFree e.target.name.toList := by
    simpa [Plain, keys] using plain
  obtain ⟨source', target'⟩ : MarkFree e'.source.name.toList ∧ MarkFree e'.target.name.toList := by
    simpa [Plain, keys] using plain'
  rw [textOf_edge, textOf_edge] at h
  obtain ⟨source_type, h⟩ := mark_append_inj (List.cons.inj h).2
  obtain ⟨source_name, h⟩ :=
    eq_of_append_eq source source' (.inr ⟨_, _, rfl⟩) (.inr ⟨_, _, rfl⟩) h
  obtain ⟨target_type, h⟩ := mark_append_inj h
  obtain ⟨target_name, kinds, rest⟩ :=
    eq_of_end_eq target target' (isField_kind _) (isField_kind _) h
  obtain ⟨⟨type, name⟩, ⟨type₂, name₂⟩, kind⟩ := e
  obtain ⟨⟨type', name'⟩, ⟨type₂', name₂'⟩, kind'⟩ := e'
  obtain rfl : type = type' := source_type
  obtain rfl : name = name' := String.toList_inj.1 source_name
  obtain rfl : type₂ = type₂' := target_type
  obtain rfl : name₂ = name₂' := String.toList_inj.1 target_name
  obtain rfl : kind = kind' := field_injective kinds
  exact ⟨rfl, rest⟩

/-- Lines whose names hold no mark are told by their text. -/
theorem textOf_injective (plain : ∀ l ∈ ls, l.Plain) (plain' : ∀ l ∈ ls', l.Plain)
    (h : textOf ls = textOf ls') : ls = ls' := by
  induction ls generalizing ls' with
  | nil =>
    cases ls' with
    | nil => rfl
    | cons l' ls' => cases l' <;> exact absurd h (List.cons_ne_nil _ _).symm
  | cons l ls ih =>
    cases ls' with
    | nil => cases l <;> exact absurd h (List.cons_ne_nil _ _)
    | cons l' ls' =>
      obtain ⟨hl, hls⟩ := List.forall_mem_cons.1 plain
      obtain ⟨hl', hls'⟩ := List.forall_mem_cons.1 plain'
      cases l with
      | node n =>
        cases l' with
        | node n' =>
          obtain ⟨rfl, rest⟩ := node_cons_inj hl hl' h
          rw [ih hls hls' rest]
        | edge e' =>
          rw [textOf_node, textOf_edge] at h
          exact absurd (List.cons.inj h).1 (by decide)
      | edge e =>
        cases l' with
        | node n' =>
          rw [textOf_edge, textOf_node] at h
          exact absurd (List.cons.inj h).1 (by decide)
        | edge e' =>
          obtain ⟨rfl, rest⟩ := edge_cons_inj hl hl' h
          rw [ih hls hls' rest]

end Line

/-! ## Graphs -/

namespace Graph

variable {g g' : Graph}

/-- The lines of the fingerprint text. -/
def lines (g : Graph) : List Line :=
  g.sortedNodes.map Line.node ++ g.sortedEdges.map Line.edge

theorem toList_fingerprintText (g : Graph) : g.fingerprintText.toList = Line.textOf g.lines := by
  have text_eq : g.fingerprintText =
      String.join (g.sortedNodes.map fun n => "N|" ++ n.key.text ++ "|" ++
        (n.layer.map Layer.name).getD "-" ++ "|" ++ toString n.order ++ "\n") ++
      String.join (g.sortedEdges.map fun e => "E|" ++ e.source.text ++ "|" ++ e.target.text ++
        "|" ++ e.kind.name ++ "\n") := rfl
  rw [text_eq, String.toList_append, String.toList_join, String.toList_join, lines, Line.textOf,
    List.flatMap_append, List.flatMap_map, List.flatMap_map, List.flatMap_map, List.flatMap_map]
  congr 1
  · refine List.flatMap_congr fun n _ => ?_
    simp [Line.chars, NodeKey.marked, NodeType.mark, NodeKey.text, Layer.field]
  · refine List.flatMap_congr fun e _ => ?_
    simp [Line.chars, NodeKey.marked, NodeType.mark, NodeKey.text]

theorem filterMap_node?_lines (g : Graph) : g.lines.filterMap Line.node? = g.sortedNodes := by
  simp [lines, Function.comp_def, Line.node?]

theorem filterMap_edge?_lines (g : Graph) : g.lines.filterMap Line.edge? = g.sortedEdges := by
  simp [lines, Function.comp_def, Line.edge?]

/-- The lines tell the nodes and the edges. -/
theorem same_of_lines_eq (h : g.lines = g'.lines) : Same g g' := by
  have nodes_eq : g.sortedNodes = g'.sortedNodes := by
    rw [← filterMap_node?_lines, h, filterMap_node?_lines]
  have edges_eq : g.sortedEdges = g'.sortedEdges := by
    rw [← filterMap_edge?_lines, h, filterMap_edge?_lines]
  constructor
  · have sorted := List.mergeSort_perm g.nodes fun a b => Sorted.le a.key b.key
    exact sorted.symm.trans ((List.Perm.of_eq nodes_eq).trans (List.mergeSort_perm g'.nodes _))
  · have sorted := Sorted.perm_sort g.edges
    exact sorted.symm.trans ((List.Perm.of_eq edges_eq).trans (Sorted.perm_sort g'.edges))

theorem WellFormed.plain_lines (h : g.WellFormed) (plain : ∀ k ∈ g.keys, MarkFree k.name.toList) :
    ∀ l ∈ g.lines, l.Plain := by
  intro l hl k hk
  refine plain k ?_
  rcases List.mem_append.1 hl with hl | hl
  · obtain ⟨n, hn, rfl⟩ := List.mem_map.1 hl
    obtain rfl := List.mem_singleton.1 hk
    exact List.mem_map_of_mem (List.mem_mergeSort.1 hn)
  · obtain ⟨e, he, rfl⟩ := List.mem_map.1 hl
    have he' : e ∈ g.edges := Sorted.mem_sort.1 he
    rcases List.mem_pair.1 hk with rfl | rfl
    · exact h.source_mem e he'
    · exact h.target_mem e he'

/-- Well-formed graphs whose names hold no mark are the same just if their fingerprint texts are. -/
theorem WellFormed.same_iff (hg : g.WellFormed) (hg' : g'.WellFormed)
    (plain : ∀ k ∈ g.keys, MarkFree k.name.toList)
    (plain' : ∀ k ∈ g'.keys, MarkFree k.name.toList) :
    g.fingerprintText = g'.fingerprintText ↔ Same g g' := by
  refine ⟨fun h => same_of_lines_eq ?_, fun same => same.fingerprintText_eq hg⟩
  refine Line.textOf_injective (hg.plain_lines plain) (hg'.plain_lines plain') ?_
  rw [← toList_fingerprintText, ← toList_fingerprintText, h]

/-- Graphs that are built from names without marks are the same just if the bytes that are digested
are, and just if their fingerprints are unless two texts have one digest. -/
theorem same_iff_fingerprintText_eq (hg : Build.IsBuilt g) (hg' : Build.IsBuilt g')
    (plain : ∀ k ∈ g.keys, MarkFree k.name.toList)
    (plain' : ∀ k ∈ g'.keys, MarkFree k.name.toList) :
    (g.fingerprintText.toUTF8 = g'.fingerprintText.toUTF8 ↔ Same g g') ∧
      ((g.fingerprint = g'.fingerprint → g.fingerprintText.toUTF8 = g'.fingerprintText.toUTF8) →
        (g.fingerprint = g'.fingerprint ↔ Same g g')) := by
  have bytes_iff : g.fingerprintText.toUTF8 = g'.fingerprintText.toUTF8 ↔ Same g g' :=
    String.toByteArray_inj.trans (hg.wellFormed.same_iff hg'.wellFormed plain plain')
  refine ⟨bytes_iff, fun no_collision => ⟨fun h => bytes_iff.1 (no_collision h), fun same => ?_⟩⟩
  rw [fingerprint, bytes_iff.2 same, fingerprint]

/-- Two classes, the first of which has bars, colons and a line break in its name. -/
def barredGraph (edges : List Edge) : Graph where
  nodes := [⟨⟨.classDef, "a|b:\nN|"⟩, -1⟩, ⟨⟨.classDef, "c"⟩, -1⟩]
  edges := edges

/-- The edge from the second class to the first. -/
def barredEdge : Edge :=
  ⟨⟨.classDef, "c"⟩, ⟨.classDef, "a|b:\nN|"⟩, .usesClass⟩

theorem isBuilt_barredGraph :
    Build.IsBuilt (barredGraph [barredEdge]) ∧ Build.IsBuilt (barredGraph []) := by
  constructor
  · have declared : Build.declarations [{ kind := .classDef, name := "a|b:\nN|" },
        { kind := .classDef, name := "c", usesClasses := ["a|b:\nN|"] }] =
        [{ key := ⟨.classDef, "a|b:\nN|"⟩ },
          { key := ⟨.classDef, "c"⟩, classes := ["a|b:\nN|"] }] := by cbv
    exact Build.isBuilt_of_declarations declared (fun _ => none) (by rfl)
  · have declared : Build.declarations [{ kind := .classDef, name := "a|b:\nN|" },
        { kind := .classDef, name := "c" }] =
        [{ key := ⟨.classDef, "a|b:\nN|"⟩ }, { key := ⟨.classDef, "c"⟩ }] := by cbv
    exact Build.isBuilt_of_declarations declared (fun _ => none) (by rfl)

theorem markFree_barredGraph (edges : List Edge) :
    ∀ k ∈ (barredGraph edges).keys, MarkFree k.name.toList := by
  show ∀ k ∈ [(⟨.classDef, "a|b:\nN|"⟩ : NodeKey), ⟨.classDef, "c"⟩], MarkFree k.name.toList
  rw [List.forall_mem_cons, List.forall_mem_singleton]
  refine ⟨fun t => ?_, markFree_of_bar_notMem (by decide)⟩
  cases t <;> decide

/-- Bars, colons and line breaks by themselves do no harm. -/
theorem same_iff_fingerprintText_eq_barred :
    Build.IsBuilt (barredGraph [barredEdge]) ∧ Build.IsBuilt (barredGraph []) ∧
      (∀ k ∈ (barredGraph [barredEdge]).keys, MarkFree k.name.toList) ∧
      (∀ k ∈ (barredGraph []).keys, MarkFree k.name.toList) ∧
      (barredGraph [barredEdge]).fingerprintText.toUTF8 ≠
        (barredGraph []).fingerprintText.toUTF8 := by
  obtain ⟨built, built'⟩ := isBuilt_barredGraph
  have plain := markFree_barredGraph [barredEdge]
  have plain' := markFree_barredGraph []
  refine ⟨built, built', plain, plain', fun equal => ?_⟩
  have same := (same_iff_fingerprintText_eq built built' plain plain').1.1 equal
  exact absurd same.edges.length_eq (by decide)

/-- Four classes in their order, and one edge. -/
def clashGraph (e : Edge) : Graph where
  nodes := [⟨⟨.classDef, "a"⟩, 0⟩, ⟨⟨.classDef, "b|Class:a"⟩, 1⟩, ⟨⟨.classDef, "c"⟩, 2⟩,
    ⟨⟨.classDef, "c|Class:b"⟩, 3⟩]
  edges := [e]

/-- The edge from the third class to the second. -/
def clashEdge : Edge :=
  ⟨⟨.classDef, "c"⟩, ⟨.classDef, "b|Class:a"⟩, .usesClass⟩

/-- The edge from the fourth class to the first. -/
def clashEdge' : Edge :=
  ⟨⟨.classDef, "c|Class:b"⟩, ⟨.classDef, "a"⟩, .usesClass⟩

theorem isBuilt_clashGraph :
    Build.IsBuilt (clashGraph clashEdge) ∧ Build.IsBuilt (clashGraph clashEdge') := by
  constructor
  · have declared : Build.declarations [{ kind := .classDef, name := "a" },
        { kind := .classDef, name := "b|Class:a" },
        { kind := .classDef, name := "c", usesClasses := ["b|Class:a"] },
        { kind := .classDef, name := "c|Class:b" }] =
        [{ key := ⟨.classDef, "a"⟩ }, { key := ⟨.classDef, "b|Class:a"⟩ },
          { key := ⟨.classDef, "c"⟩, classes := ["b|Class:a"] },
          { key := ⟨.classDef, "c|Class:b"⟩ }] := by cbv
    exact Build.isBuilt_of_declarations declared
      (fun k => ((clashGraph clashEdge).node? k).map Node.order) (by rfl)
  · have declared : Build.declarations [{ kind := .classDef, name := "a" },
        { kind := .classDef, name := "b|Class:a" }, { kind := .classDef, name := "c" },
        { kind := .classDef, name := "c|Class:b", usesClasses := ["a"] }] =
        [{ key := ⟨.classDef, "a"⟩ }, { key := ⟨.classDef, "b|Class:a"⟩ },
          { key := ⟨.classDef, "c"⟩ },
          { key := ⟨.classDef, "c|Class:b"⟩, classes := ["a"] }] := by cbv
    exact Build.isBuilt_of_declarations declared
      (fun k => ((clashGraph clashEdge').node? k).map Node.order) (by rfl)

/-- Both edges are written `E|Class:c|Class:b|Class:a|USES_CLASS`, so the graphs have one text. -/
theorem fingerprintText_clash :
    Build.IsBuilt (clashGraph clashEdge) ∧ Build.IsBuilt (clashGraph clashEdge') ∧
      (clashGraph clashEdge).fingerprintText.toUTF8 =
        (clashGraph clashEdge').fingerprintText.toUTF8 ∧
      ¬ Same (clashGraph clashEdge) (clashGraph clashEdge') := by
  refine ⟨isBuilt_clashGraph.1, isBuilt_clashGraph.2, congrArg String.toUTF8 (by cbv), ?_⟩
  intro same
  have listed := same.edges.mem_iff.1 (List.mem_singleton_self clashEdge)
  exact absurd (List.mem_singleton.1 listed) (by decide)

end Graph

end LayerGraph
