import LayerGraph.Decimal.Digits
import LayerGraph.StoredGraph
import LayerGraph.Text.Base

/-!
# The file of a stored graph

A stored graph is kept in a text file. Below a heading stand its rows, one a line, in fields that
tabs part. In a field a tab, a line feed and a backslash are written with a backslash in front.

Main statement: `unescape?_escape`, a field reads back as what was written.
-/

namespace LayerGraph.StoredGraph

/-! ## Fields -/

/-- A field as it is written. -/
def escape : List Char → List Char
  | [] => []
  | c :: rest =>
    if c = '\t' then '\\' :: 't' :: escape rest
    else if c = '\n' then '\\' :: 'n' :: escape rest
    else if c = '\\' then '\\' :: '\\' :: escape rest
    else c :: escape rest

/-- The field that was written, unless a backslash stands alone. -/
def unescape? : List Char → Option (List Char)
  | [] => some []
  | '\\' :: 't' :: rest => (unescape? rest).map ('\t' :: ·)
  | '\\' :: 'n' :: rest => (unescape? rest).map ('\n' :: ·)
  | '\\' :: '\\' :: rest => (unescape? rest).map ('\\' :: ·)
  | c :: rest => if c = '\\' then none else (unescape? rest).map (c :: ·)

theorem unescape?_escape (cs : List Char) : unescape? (escape cs) = some cs := by
  induction cs with
  | nil => rfl
  | cons c rest ih =>
    unfold escape
    split
    · simp [unescape?, *]
    · split
      · simp [unescape?, *]
      · split
        · simp [unescape?, *]
        · rw [unescape?] <;> simp_all

/-! ## Rows -/

/-- Fields as a line. -/
def lineOf (fields : List String) : String :=
  "\t".intercalate (fields.map fun f => String.ofList (escape f.toList)) ++ "\n"

/-- The fields of a line. -/
def fieldsOf (line : String) : Option (List String) :=
  (line.splitOn "\t").mapM fun f => (unescape? f.toList).map String.ofList

/-- The integer that a field holds. -/
def integer? (field : String) : Option Int :=
  match field.toList with
  | '-' :: ds => (Text.numberIn? 10 ds).map fun n => -(n : Int)
  | ds => (Text.numberIn? 10 ds).map Int.ofNat

def NodeRow.line (r : NodeRow) : String :=
  lineOf ["node", r.node.key.type.name, r.node.key.name, Decimal.intText r.node.order, r.run]

def EdgeRow.line (r : EdgeRow) : String :=
  let e := r.edge
  lineOf
    ["edge", e.source.type.name, e.source.name, e.kind.name, e.target.type.name, e.target.name,
     r.run]

/-- A row of either kind. -/
inductive Row
  | node (r : NodeRow)
  | edge (r : EdgeRow)

/-- The row that a line holds. -/
def rowOfLine? (line : String) : Option Row := do
  match ← fieldsOf line with
  | ["node", type, name, order, run] =>
    return .node ⟨{ key := ⟨← NodeType.ofText? type, name⟩, order := ← integer? order }, run⟩
  | ["edge", sourceType, sourceName, kind, targetType, targetName, run] =>
    let edge : Edge :=
      { source := ⟨← NodeType.ofText? sourceType, sourceName⟩
        target := ⟨← NodeType.ofText? targetType, targetName⟩
        kind := ← EdgeKind.ofText? kind }
    return .edge ⟨edge, run⟩
  | _ => none

/-! ## Files -/

/-- The first line of the file. It says whether changes are written to a log first. -/
def heading (isLogged : Bool) : String :=
  if isLogged then "layer graph 1" else "layer graph 1 without log"

/-- The file of a database without tables. -/
def bareFileText : String := "layer graph 1 without tables\n"

/-- The file of a stored graph. -/
def fileText (m : StoredGraph) (isLogged : Bool) : String :=
  heading isLogged ++ "\n" ++ String.join (m.nodes.map NodeRow.line) ++
    String.join (m.edges.map EdgeRow.line)

/-- The stored graph of a file, and whether changes to it are written to a log first. -/
def ofFileText? (text : String) : Option (StoredGraph × Bool) := do
  match text.splitOn "\n" with
  | [] => none
  | first :: lines =>
    let isLogged ← [true, false].find? (heading · = first)
    let rows ← (lines.filter (· ≠ "")).mapM rowOfLine?
    let node? : Row → Option NodeRow := fun | .node r => some r | .edge _ => none
    let edge? : Row → Option EdgeRow := fun | .node _ => none | .edge r => some r
    return ({ nodes := rows.filterMap node?, edges := rows.filterMap edge? }, isLogged)

end LayerGraph.StoredGraph
