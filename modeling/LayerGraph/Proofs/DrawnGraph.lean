import LayerGraph.Graph.Export
import LayerGraph.Proofs.FingerprintText
import LayerGraph.Proofs.KeyText

/-!
# What a drawing tells

In a drawing, names stand in quotes beside the syntax. Quotes and backslashes of a name are escaped,
so a quoted text ends where the drawing closes it, whatever the name is. A reader that cuts a drawing
into quoted texts and the characters around them finds the texts that were written and no others, and
from these the nodes, their orders and the edges can be told.

Main statements:
1. `Dot.tokensFrom_chars`: tokens are found again where they are written one after another.
2. `Graph.tokens_toDot`: what a reader finds in a drawing.
3. `Graph.toDot_eq_iff`: graphs have one drawing just if they have the same nodes and edges.
-/

namespace LayerGraph

/-! ## Reading quoted texts -/

namespace Dot

/-- What a drawing consists of: texts in quotes, as they stand between them, and the characters
outside of quotes. -/
inductive Token
  | quoted (body : List Char)
  | bare (c : Char)
deriving DecidableEq, Repr

/-- Cuts a drawing into tokens, unless its last quote is not closed. The first argument is what has
been read of a text whose closing quote is yet to come. In there a backslash takes the character
behind it along, so that a quote behind a backslash closes nothing. -/
def tokensFrom : Option (List Char) → List Char → Option (List Token)
  | none, [] => some []
  | none, '"' :: rest => tokensFrom (some []) rest
  | none, c :: rest => (tokensFrom none rest).map (.bare c :: ·)
  | some _, [] => none
  | some body, '"' :: rest => (tokensFrom none rest).map (.quoted body :: ·)
  | some body, '\\' :: c :: rest => tokensFrom (some (body ++ ['\\', c])) rest
  | some body, c :: rest => tokensFrom (some (body ++ [c])) rest

/-- The tokens of a drawing. -/
def tokens (text : String) : Option (List Token) :=
  tokensFrom none text.toList

/-- What an escaped text stands for. -/
def unescape : List Char → List Char
  | '\\' :: c :: rest => c :: unescape rest
  | c :: rest => c :: unescape rest
  | [] => []

/-- A text that does not close the quotes it stands in. -/
inductive Body : List Char → Prop
  | nil : Body []
  | plain {c : Char} {cs : List Char} : c ≠ '"' → c ≠ '\\' → Body cs → Body (c :: cs)
  | escaped (c : Char) {cs : List Char} : Body cs → Body ('\\' :: c :: cs)

variable {cs cs' : List Char} {ts : List Token}

theorem Body.append (h : Body cs) (h' : Body cs') : Body (cs ++ cs') := by
  induction h with
  | nil => exact h'
  | plain quote backslash _ ih => exact .plain quote backslash ih
  | escaped c _ ih => exact .escaped c ih

theorem body_of_notMem (quote : '"' ∉ cs) (backslash : '\\' ∉ cs) : Body cs := by
  induction cs with
  | nil => exact .nil
  | cons c cs ih =>
    obtain ⟨quote, others⟩ := List.ne_and_not_mem_of_not_mem_cons quote
    obtain ⟨backslash, others'⟩ := List.ne_and_not_mem_of_not_mem_cons backslash
    exact .plain quote.symm backslash.symm (ih others others')

theorem tokensFrom_body (h : Body cs) (front rest : List Char) :
    tokensFrom (some front) (cs ++ '"' :: rest) =
      (tokensFrom none rest).map (.quoted (front ++ cs) :: ·) := by
  induction h generalizing front with
  | nil => rw [List.append_nil]; rfl
  | @plain c cs quote backslash _ ih =>
    have step : tokensFrom (some front) (c :: (cs ++ '"' :: rest)) =
        tokensFrom (some (front ++ [c])) (cs ++ '"' :: rest) := by
      rw [tokensFrom]
      · exact fun same => quote same
      · exact fun _ _ same => absurd same backslash
    rw [List.cons_append, step, ih, List.append_assoc, List.singleton_append]
  | @escaped c cs _ ih =>
    rw [List.cons_append, List.cons_append, tokensFrom, ih, List.append_assoc]
    rfl

namespace Token

/-- How a token is written. -/
def chars : Token → List Char
  | quoted body => '"' :: (body ++ ['"'])
  | bare c => [c]

/-- The token can be told when it is written: it has no quotes but those around it. -/
def Fits : Token → Prop
  | quoted body => Body body
  | bare c => c ≠ '"'

end Token

/-- Tokens that are written one after another are found again. -/
theorem tokensFrom_chars (h : ∀ t ∈ ts, t.Fits) :
    tokensFrom none (ts.flatMap Token.chars) = some ts := by
  induction ts with
  | nil => rfl
  | cons t ts ih =>
    obtain ⟨fits, others⟩ := List.forall_mem_cons.1 h
    rw [List.flatMap_cons]
    cases t with
    | quoted body =>
      rw [Token.chars, List.cons_append, List.append_assoc, List.singleton_append, tokensFrom,
        tokensFrom_body fits, ih others]
      rfl
    | bare c =>
      rw [Token.chars, List.singleton_append, tokensFrom, ih others]
      · rfl
      · exact fits

/-- Characters outside of quotes. -/
def bare (s : String) : List Token :=
  s.toList.map .bare

@[simp] theorem flatMap_chars_bare (s : String) : (bare s).flatMap Token.chars = s.toList := by
  simp [bare, List.flatMap_map, Token.chars]

theorem fits_of_mem_bare {s : String} (h : '"' ∉ s.toList) : ∀ t ∈ bare s, t.Fits := by
  rw [bare, List.forall_mem_map]
  exact fun c hc same => h (same ▸ hc)

/-! ## Escaped texts -/

theorem toList_replaceChar (c : Char) (other s : String) : (Graph.replaceChar c other s).toList =
    s.toList.flatMap fun x => if x = c then other.toList else [x] :=
  String.toList_ofList

/-- The two replacements are one pass that puts a backslash in front of each backslash and each
quote. -/
theorem toList_dotEscape (s : String) : (Graph.dotEscape s).toList =
    s.toList.flatMap fun c => if c = '\\' ∨ c = '"' then ['\\', c] else [c] := by
  rw [Graph.dotEscape, toList_replaceChar, toList_replaceChar, List.flatMap_assoc]
  refine List.flatMap_congr fun c _ => ?_
  by_cases backslash : c = '\\'
  · subst backslash
    rfl
  by_cases quote : c = '"'
  · subst quote
    rfl
  · rw [if_neg backslash, List.flatMap_singleton, if_neg quote, if_neg (by simp [backslash, quote])]

/-- The other way round, the backslash in front of a quote would get one of its own. -/
example : Graph.replaceChar '\\' "\\\\" (Graph.replaceChar '"' "\\\"" "\"") ≠
    Graph.dotEscape "\"" := by
  decide

theorem body_dotEscape (s : String) : Body (Graph.dotEscape s).toList := by
  rw [toList_dotEscape]
  induction s.toList with
  | nil => exact .nil
  | cons c cs ih =>
    rw [List.flatMap_cons]
    split
    · exact .escaped c ih
    · next plain => exact .plain (fun h => plain (.inr h)) (fun h => plain (.inl h)) ih

theorem unescape_dotEscape (s : String) : unescape (Graph.dotEscape s).toList = s.toList := by
  rw [toList_dotEscape]
  induction s.toList with
  | nil => rfl
  | cons c cs ih =>
    rw [List.flatMap_cons]
    split
    · exact congrArg (c :: ·) ih
    · next plain =>
      have other : c ≠ '\\' := fun h => plain (.inl h)
      rw [List.singleton_append, unescape]
      · exact congrArg (c :: ·) ih
      · exact fun _ _ same => absurd same other

theorem dotEscape_injective {s s' : String}
    (h : (Graph.dotEscape s).toList = (Graph.dotEscape s').toList) : s = s' := by
  rw [← String.toList_inj, ← unescape_dotEscape s, h, unescape_dotEscape]

end Dot

namespace Decimal

theorem digits_injective {m n : Nat} (h : digits m = digits n) : m = n := by
  rw [← value_digits m, h, value_digits]

theorem minus_notMem_digits (n : Nat) : '-' ∉ digits n := by
  intro minus
  exact absurd (isDigit_of_mem_digits n '-' minus) (by decide)

theorem notMem_intText {c : Char} (digit : isDigit c = false) (minus : c ≠ '-') (i : Int) :
    c ∉ (intText i).toList := by
  have other : c ∉ digits i.natAbs := by
    intro hc
    rw [isDigit_of_mem_digits _ c hc] at digit
    cases digit
  rw [intText, String.toList_ofList]
  split
  · exact List.not_mem_cons_of_ne_of_not_mem minus other
  · exact other

theorem intText_injective {i j : Int} (h : (intText i).toList = (intText j).toList) : i = j := by
  unfold intText at h
  rw [String.toList_ofList, String.toList_ofList] at h
  split at h
  · split at h
    · have size := digits_injective (List.cons.inj h).2
      omega
    · exact absurd (h ▸ List.mem_cons_self) (minus_notMem_digits j.natAbs)
  · split at h
    · exact absurd (h ▸ List.mem_cons_self) (minus_notMem_digits i.natAbs)
    · have size := digits_injective h
      omega

end Decimal

/-! ## Lines of a drawing -/

open Dot (Token Body bare)

namespace Node

/-- What stands below the key of a node: its layer, and its order if it has one. -/
def caption (n : Node) : List Char :=
  ((n.layer.map Layer.name).getD "EXTERNAL").toList ++
    (if n.isOrdered then " #" ++ Decimal.intText n.order else "").toList

/-- The line of a node as a reader finds it: the key, and a label with the key, a line break and the
caption. -/
def tokens (n : Node) : List Token :=
  let key := (Graph.dotEscape n.key.text).toList
  bare "  " ++ .quoted key :: bare " [label=" ++ .quoted (key ++ '\\' :: 'n' :: n.caption) ::
    bare (", shape=" ++ Graph.dotShape n.key.type ++
      (if n.isExternal then ", style=dashed" else "") ++ "];\n")

theorem toList_dotNode (n : Node) : (Graph.dotNode n).toList = n.tokens.flatMap Token.chars := by
  simp [Graph.dotNode, tokens, caption, Token.chars]

theorem body_caption (n : Node) : Body n.caption := by
  refine Body.append ?_ ?_
  · cases n.layer with
    | none => exact Dot.body_of_notMem (by decide) (by decide)
    | some l => cases l <;> exact Dot.body_of_notMem (by decide) (by decide)
  · split
    · rw [String.toList_append]
      exact Body.append (Dot.body_of_notMem (by decide) (by decide)) (Dot.body_of_notMem
        (Decimal.notMem_intText rfl (by decide) _) (Decimal.notMem_intText rfl (by decide) _))
    · exact .nil

theorem fits_of_mem_tokens (n : Node) : ∀ t ∈ n.tokens, t.Fits := by
  have key := Dot.body_dotEscape n.key.text
  have label := key.append (.escaped 'n' n.body_caption)
  have style : '"' ∉ (", shape=" ++ Graph.dotShape n.key.type ++
      (if n.isExternal then ", style=dashed" else "") ++ "];\n").toList := by
    unfold isExternal NodeKey.isExternal
    generalize n.key.type = t
    cases t <;> decide
  unfold tokens
  simp only [List.forall_mem_append, List.forall_mem_cons]
  exact ⟨⟨Dot.fits_of_mem_bare (by decide), key, Dot.fits_of_mem_bare (by decide)⟩, label,
    Dot.fits_of_mem_bare style⟩

/-- The key and the caption tell the node. -/
theorem eq_of_caption_eq {n n' : Node} (key : n.key = n'.key) (h : n.caption = n'.caption) :
    n = n' := by
  obtain ⟨k, order⟩ := n
  obtain ⟨k', order'⟩ := n'
  obtain rfl : k = k' := key
  have orders := List.append_cancel_left h
  have given {o : Int} : isOrdered ⟨k, o⟩ = false ↔ o = unordered := by simp [isOrdered]
  refine congrArg (Node.mk k) ?_
  cases ho : isOrdered ⟨k, order⟩ with
  | true =>
    cases ho' : isOrdered ⟨k, order'⟩ with
    | true => exact Decimal.intText_injective (by simpa [ho, ho'] using orders)
    | false => simp [ho, ho'] at orders
  | false =>
    cases ho' : isOrdered ⟨k, order'⟩ with
    | true => simp [ho, ho'] at orders
    | false => rw [given.1 ho, given.1 ho']

theorem tokens_append_inj {n n' : Node} {ts ts' : List Token}
    (h : n.tokens ++ ts = n'.tokens ++ ts') : n = n' ∧ ts = ts' := by
  simp only [tokens, List.append_assoc, List.cons_append] at h
  obtain ⟨keys, h⟩ := List.cons.inj (List.append_cancel_left h)
  obtain ⟨labels, h⟩ := List.cons.inj (List.append_cancel_left h)
  rw [Token.quoted.injEq] at keys labels
  have key : n.key = n'.key := NodeKey.text_injective (Dot.dotEscape_injective keys)
  rw [keys] at labels
  have captions := (List.cons.inj (List.cons.inj (List.append_cancel_left labels)).2).2
  obtain rfl := eq_of_caption_eq key captions
  exact ⟨rfl, List.append_cancel_left h⟩

end Node

namespace Edge

/-- The line of an edge as a reader finds it. -/
def tokens (e : Edge) : List Token :=
  bare "  " ++ .quoted (Graph.dotEscape e.source.text).toList :: bare " -> " ++
    .quoted (Graph.dotEscape e.target.text).toList :: bare " [label=" ++
    .quoted e.kind.name.toList :: bare "];\n"

theorem toList_dotEdge (e : Edge) : (Graph.dotEdge e).toList = e.tokens.flatMap Token.chars := by
  simp [Graph.dotEdge, tokens, Token.chars]

theorem fits_of_mem_tokens (e : Edge) : ∀ t ∈ e.tokens, t.Fits := by
  have kind : Body e.kind.name.toList := by
    cases e.kind <;> exact Dot.body_of_notMem (by decide) (by decide)
  unfold tokens
  simp only [List.forall_mem_append, List.forall_mem_cons]
  exact ⟨⟨⟨Dot.fits_of_mem_bare (by decide), Dot.body_dotEscape _,
    Dot.fits_of_mem_bare (by decide)⟩, Dot.body_dotEscape _, Dot.fits_of_mem_bare (by decide)⟩,
    kind, Dot.fits_of_mem_bare (by decide)⟩

theorem tokens_append_inj {e e' : Edge} {ts ts' : List Token}
    (h : e.tokens ++ ts = e'.tokens ++ ts') : e = e' ∧ ts = ts' := by
  simp only [tokens, List.append_assoc, List.cons_append] at h
  obtain ⟨sources, h⟩ := List.cons.inj (List.append_cancel_left h)
  obtain ⟨targets, h⟩ := List.cons.inj (List.append_cancel_left h)
  obtain ⟨kinds, rest⟩ := List.cons.inj (List.append_cancel_left h)
  rw [Token.quoted.injEq] at sources targets kinds
  obtain ⟨source, target, kind⟩ := e
  obtain ⟨source', target', kind'⟩ := e'
  obtain rfl : source = source' := NodeKey.text_injective (Dot.dotEscape_injective sources)
  obtain rfl : target = target' := NodeKey.text_injective (Dot.dotEscape_injective targets)
  obtain rfl : kind = kind' := Line.field_injective kinds
  exact ⟨rfl, List.append_cancel_left rest⟩

end Edge

/-! ## Drawings -/

namespace Graph

variable {g g' : Graph}

/-- The lines before the nodes as a reader finds them. -/
def headerTokens : List Token :=
  bare "digraph stratum \x7b\n  rankdir=BT;\n  node [fontname=" ++ .quoted "Helvetica".toList ::
    bare ", fontsize=10];\n  edge [fontname=" ++ .quoted "Helvetica".toList ::
    bare ", fontsize=8];\n\n"

/-- The lines behind the nodes as a reader finds them. -/
def edgeTokens (g : Graph) : List Token :=
  bare (if g.sortedEdges.isEmpty then "" else "\n") ++ g.sortedEdges.flatMap Edge.tokens ++
    bare "\x7d\n"

/-- A drawing as a reader finds it. -/
def tokens (g : Graph) : List Token :=
  headerTokens ++ (g.sortedNodes.flatMap Node.tokens ++ g.edgeTokens)

theorem toList_toDot (g : Graph) : g.toDot.toList = g.tokens.flatMap Token.chars := by
  have nodes : (String.join (g.sortedNodes.map dotNode)).toList =
      (g.sortedNodes.flatMap Node.tokens).flatMap Token.chars := by
    rw [String.toList_join, List.flatMap_map, List.flatMap_assoc]
    exact List.flatMap_congr fun n _ => n.toList_dotNode
  have edges : (String.join (g.sortedEdges.map dotEdge)).toList =
      (g.sortedEdges.flatMap Edge.tokens).flatMap Token.chars := by
    rw [String.toList_join, List.flatMap_map, List.flatMap_assoc]
    exact List.flatMap_congr fun e _ => e.toList_dotEdge
  have header : dotHeader.toList = headerTokens.flatMap Token.chars := by
    cbv
  unfold toDot tokens edgeTokens
  simp only [String.toList_append, List.flatMap_append, Dot.flatMap_chars_bare, nodes, edges, header,
    List.append_assoc]

theorem fits_of_mem_tokens (g : Graph) : ∀ t ∈ g.tokens, t.Fits := by
  have font : Body "Helvetica".toList := Dot.body_of_notMem (by decide) (by decide)
  have gap : '"' ∉ (if g.sortedEdges.isEmpty then "" else "\n").toList := by
    split <;> decide
  unfold tokens headerTokens edgeTokens
  simp only [List.forall_mem_append, List.forall_mem_cons]
  exact ⟨⟨⟨Dot.fits_of_mem_bare (by decide), font, Dot.fits_of_mem_bare (by decide)⟩, font,
    Dot.fits_of_mem_bare (by decide)⟩,
    List.forall_mem_flatMap.2 fun n _ => n.fits_of_mem_tokens,
    ⟨Dot.fits_of_mem_bare gap, List.forall_mem_flatMap.2 fun e _ => e.fits_of_mem_tokens⟩,
    Dot.fits_of_mem_bare (by decide)⟩

theorem tokens_toDot (g : Graph) : Dot.tokens g.toDot = some g.tokens := by
  rw [Dot.tokens, toList_toDot, Dot.tokensFrom_chars g.fits_of_mem_tokens]

/-- Lines that all begin alike are told from what stands behind them. -/
theorem flatMap_append_inj {α : Type} {line : α → List Token} {first : Token}
    (begins : ∀ a, (line a).head? = some first)
    (inj : ∀ {a b ts ts'}, line a ++ ts = line b ++ ts' → a = b ∧ ts = ts')
    {xs ys : List α} {ts ts' : List Token} (ends : ts.head? ≠ some first)
    (ends' : ts'.head? ≠ some first)
    (h : xs.flatMap line ++ ts = ys.flatMap line ++ ts') : xs = ys ∧ ts = ts' := by
  have head (a : α) (rest : List Token) : (line a ++ rest).head? = some first := by
    rw [List.head?_append, begins, Option.some_or]
  induction xs generalizing ys with
  | nil =>
    cases ys with
    | nil => exact ⟨rfl, h⟩
    | cons b ys =>
      rw [List.flatMap_cons, List.append_assoc] at h
      exact absurd (congrArg List.head? h |>.trans (head b _)) ends
  | cons a xs ih =>
    rw [List.flatMap_cons, List.append_assoc] at h
    cases ys with
    | nil => exact absurd (congrArg List.head? h |>.symm.trans (head a _)) ends'
    | cons b ys =>
      rw [List.flatMap_cons, List.append_assoc] at h
      obtain ⟨rfl, rest⟩ := inj h
      obtain ⟨rfl, rfl⟩ := ih rest
      exact ⟨rfl, rfl⟩

theorem head?_edgeTokens (g : Graph) : g.edgeTokens.head? =
    some (.bare (if g.sortedEdges.isEmpty then '\x7d' else '\n')) := by
  unfold edgeTokens
  cases g.sortedEdges with
  | nil => rfl
  | cons e es => simp [bare]

/-- What stands behind the nodes does not begin as their lines do. -/
theorem head?_edgeTokens_ne (g : Graph) : g.edgeTokens.head? ≠ some (.bare ' ') := by
  rw [head?_edgeTokens]
  split <;> decide

theorem sortedEdges_eq_of_edgeTokens_eq (h : g.edgeTokens = g'.edgeTokens) :
    g.sortedEdges = g'.sortedEdges := by
  have gap : g.sortedEdges.isEmpty = g'.sortedEdges.isEmpty := by
    have heads := congrArg List.head? h
    rw [head?_edgeTokens, head?_edgeTokens] at heads
    cases he : g.sortedEdges.isEmpty <;> cases he' : g'.sortedEdges.isEmpty <;>
      simp [he, he'] at heads ⊢
  unfold edgeTokens at h
  rw [gap, List.append_assoc, List.append_assoc] at h
  exact (flatMap_append_inj (fun e : Edge => rfl) Edge.tokens_append_inj (by decide) (by decide)
    (List.append_cancel_left h)).1

/-- The tokens of a drawing tell the nodes and the edges. -/
theorem sorted_eq_of_tokens_eq (h : g.tokens = g'.tokens) :
    g.sortedNodes = g'.sortedNodes ∧ g.sortedEdges = g'.sortedEdges := by
  obtain ⟨nodes, behind⟩ := flatMap_append_inj (fun n : Node => rfl) Node.tokens_append_inj
    g.head?_edgeTokens_ne g'.head?_edgeTokens_ne (List.append_cancel_left h)
  exact ⟨nodes, sortedEdges_eq_of_edgeTokens_eq behind⟩

/-- The same nodes and edges, said of members. -/
theorem WellFormed.same_iff_mem (h : g.WellFormed) (h' : g'.WellFormed) :
    Same g g' ↔ (∀ n, n ∈ g.nodes ↔ n ∈ g'.nodes) ∧ ∀ e, e ∈ g.edges ↔ e ∈ g'.edges := by
  have nodes := List.perm_ext_iff_of_nodup h.keys_nodup.of_map h'.keys_nodup.of_map
  have edges := List.perm_ext_iff_of_nodup h.edges_nodup h'.edges_nodup
  rw [← nodes, ← edges]
  exact ⟨fun same => ⟨same.nodes, same.edges⟩, fun ⟨nodes, edges⟩ => ⟨nodes, edges⟩⟩

theorem Same.toDot_eq (h : Same g g') (hg : g.WellFormed) : g.toDot = g'.toDot := by
  unfold toDot
  rw [h.sortedNodes_eq hg, h.sortedEdges_eq]

theorem same_of_toDot_eq (h : g.toDot = g'.toDot) : Same g g' := by
  have found := (tokens_toDot g).symm.trans ((congrArg Dot.tokens h).trans (tokens_toDot g'))
  obtain ⟨nodes, edges⟩ := sorted_eq_of_tokens_eq (Option.some.inj found)
  exact same_of_lines_eq (by rw [lines, nodes, edges, lines])

/-- Graphs that steps lead to have one drawing just if they have the same nodes, with the same
orders, and the same edges. In a drawing a reader finds the texts in quotes that were written, each
of which ends where it was closed, and around them the characters of the syntax. -/
theorem toDot_eq_iff (steps steps' : List Step) :
    ((ofSteps steps).toDot = (ofSteps steps').toDot ↔
      (∀ n, n ∈ (ofSteps steps).nodes ↔ n ∈ (ofSteps steps').nodes) ∧
        ∀ e, e ∈ (ofSteps steps).edges ↔ e ∈ (ofSteps steps').edges) ∧
      Dot.tokens (ofSteps steps).toDot = some (ofSteps steps).tokens := by
  have wellFormed := (reachable_ofSteps steps).wellFormed
  have wellFormed' := (reachable_ofSteps steps').wellFormed
  refine ⟨?_, tokens_toDot _⟩
  rw [← wellFormed.same_iff_mem wellFormed']
  exact ⟨same_of_toDot_eq, fun same => same.toDot_eq wellFormed⟩

end Graph

end LayerGraph
