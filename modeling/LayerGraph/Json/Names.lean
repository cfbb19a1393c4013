import LayerGraph.Error
import LayerGraph.Record.Read

/-!
# Names in JSON texts

The types, layers and kinds as words of JSON, and keys as texts. A text that does not hold a known
word is refused with what is wrong and where; a text that holds no key is refused without a place,
since the text itself was in order.
-/

namespace LayerGraph

open Json

/-- The words for the types. -/
def NodeType.words : List (String × NodeType) :=
  NodeType.all.map fun t => (t.upperName, t)

/-- The words for the kinds of edges. -/
def EdgeKind.words : List (String × EdgeKind) :=
  EdgeKind.all.map fun k => (k.name, k)

/-- The error of a text that was refused. -/
def Error.ofFault (text : String) (f : Fault) : Error :=
  .json (f.message text.toList)

/-- The word that a whole text holds. -/
def readWord {α : Type} (words : List (String × α)) (text : String) : Except Error α :=
  (readWhole (readVariant words) text.toList).mapError (Error.ofFault text)

/-- The key that a whole text holds, as a quoted text. That the text holds a key is checked before
what follows it. -/
def NodeKey.ofJsonText (text : String) : Except Error NodeKey := do
  let (s, rest) ← (readText text.toList).mapError (Error.ofFault text)
  match NodeKey.ofText s with
  | .error fault => .error (.json (Error.invalidKey s fault).message)
  | .ok k =>
    (readWhole (fun cs => .ok (k, cs)) rest).mapError (Error.ofFault text)

/-- The record that a whole text holds. -/
def EntityRecord.ofJsonText (text : String) : Except Error EntityRecord :=
  (EntityRecord.ofText text).mapError (Error.ofFault text)

end LayerGraph
