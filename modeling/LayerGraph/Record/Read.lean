import LayerGraph.Json.Read
import LayerGraph.Record

/-!
# Reading records

A record is an object whose members may come in any order and among others, or a list of its fields
in their order, of which those after the name may be missing. The reader stops at the first fault.
-/

namespace LayerGraph

open Json

/-- The fields of a record, in their order. -/
inductive RecordField
  | kind
  | name
  | parentClass
  | usesTables
  | callsProcedures
  | usesClasses
  | order
  | layer
deriving DecidableEq, Repr

namespace RecordField

def all : List RecordField :=
  [.kind, .name, .parentClass, .usesTables, .callsProcedures, .usesClasses, .order, .layer]

/-- The field's name. -/
def word : RecordField → String
  | kind => "kind"
  | name => "name"
  | parentClass => "parent_class"
  | usesTables => "uses_tables"
  | callsProcedures => "calls_procedures"
  | usesClasses => "uses_classes"
  | order => "topological_order"
  | layer => "layer"

/-- The field of a name; a member of any other name is passed over. -/
def ofWord? (s : String) : Option RecordField :=
  all.find? fun f => f.word = s

end RecordField

/-- The words for the kinds. -/
def EntityKind.words : List (String × EntityKind) :=
  EntityKind.all.map fun k => (k.word, k)

/-- The words for the layers. -/
def Layer.words : List (String × Layer) :=
  Layer.all.map fun l => (l.name, l)

/-- A record under way: what has been read of it. -/
structure RecordDraft where
  kind : Option EntityKind := none
  name : Option String := none
  parentClass : Option (Option String) := none
  usesTables : Option (List String) := none
  callsProcedures : Option (List String) := none
  usesClasses : Option (List String) := none
  order : Option (Option Int) := none
  layer : Option (Option Layer) := none

namespace RecordDraft

/-- Whether a field has been read. -/
def has (d : RecordDraft) : RecordField → Bool
  | .kind => d.kind.isSome
  | .name => d.name.isSome
  | .parentClass => d.parentClass.isSome
  | .usesTables => d.usesTables.isSome
  | .callsProcedures => d.callsProcedures.isSome
  | .usesClasses => d.usesClasses.isSome
  | .order => d.order.isSome
  | .layer => d.layer.isSome

/-- Reads the value of a field. -/
def read (d : RecordDraft) (f : RecordField) (cs : List Char) :
    Except Fault (RecordDraft × List Char) :=
  match f with
  | .kind => do
    let (v, rest) ← readVariant EntityKind.words cs
    return ({ d with kind := some v }, rest)
  | .name => do
    let (v, rest) ← readText cs
    return ({ d with name := some v }, rest)
  | .parentClass => do
    let (v, rest) ← readOptional readText cs
    return ({ d with parentClass := some v }, rest)
  | .usesTables => do
    let (v, rest) ← readTexts cs
    return ({ d with usesTables := some v }, rest)
  | .callsProcedures => do
    let (v, rest) ← readTexts cs
    return ({ d with callsProcedures := some v }, rest)
  | .usesClasses => do
    let (v, rest) ← readTexts cs
    return ({ d with usesClasses := some v }, rest)
  | .order => do
    let (v, rest) ← readOptional readInteger cs
    return ({ d with order := some v }, rest)
  | .layer => do
    let (v, rest) ← readOptional (readVariant Layer.words) cs
    return ({ d with layer := some v }, rest)

/-- The record, or the first of its required fields that is missing. -/
def finish (d : RecordDraft) : Except RecordField EntityRecord :=
  match d.kind, d.name with
  | none, _ => .error .kind
  | some _, none => .error .name
  | some kind, some name =>
    .ok {
      kind
      name
      parentClass := d.parentClass.join
      usesTables := d.usesTables.getD []
      callsProcedures := d.callsProcedures.getD []
      usesClasses := d.usesClasses.getD []
      order := d.order.join
      layer := d.layer.join }

end RecordDraft

namespace EntityRecord

/-- What the shape is called in messages. -/
def shape : String := "struct EntityRecord"

/-- A fault of the record as a whole, found at a place inside the object: it is reported after the
object's end if that comes next. -/
def objectFault {α : Type} (cause : Cause) (cs : List Char) : Except Fault α :=
  match skipSpaces cs with
  | '\x7d' :: rest => .error (faultAfter cause rest)
  | rest => .error (faultAfter cause rest)

/-- Reads a member's value, after its key. -/
def readMember (d : RecordDraft) (key : String) (cs : List Char) :
    Except Fault (RecordDraft × List Char) :=
  match RecordField.ofWord? key with
  | some f =>
    if d.has f then objectFault (.duplicateField f.word) cs
    else do
      let cs ← readVariant.colon cs
      d.read f cs
  | none => do
    let cs ← readVariant.colon cs
    return (d, ← skipValue cs)

/-- What comes next in an object: a key, with what follows its opening quote, or the end. -/
def nextKey? (isFirst : Bool) (cs : List Char) : Except Fault (Bool × List Char) :=
  match skipSpaces cs with
  | [] => .error ⟨.endInObject, 0⟩
  | c :: rest =>
    if c = '\x7d' then .ok (false, rest)
    else if isFirst then
      if c = '"' then .ok (true, rest) else .error (faultAt .keyNotText (c :: rest))
    else if c = ',' then
      match skipSpaces rest with
      | [] => .error ⟨.endInValue, 0⟩
      | d :: more =>
        if d = '"' then .ok (true, more)
        else if d = '\x7d' then .error (faultAt .trailingComma (d :: more))
        else .error (faultAt .keyNotText (d :: more))
    else .error (faultAt .expectedCommaOrBrace (c :: rest))

/-- Reads the members of an object; each takes at least one character, so the length of the text is
enough `fuel`. -/
def readMembers (fuel : Nat) (isFirst : Bool) (d : RecordDraft) (cs : List Char) :
    Except Fault (EntityRecord × List Char) :=
  match fuel with
  | 0 => .error ⟨.endInObject, 0⟩
  | fuel + 1 => do
    let (more, rest) ← nextKey? isFirst cs
    if more then
      let (key, rest) ← scanQuoted rest
      let (d, rest) ← readMember d key rest
      readMembers fuel false d rest
    else
      match d.finish with
      | .ok r => return (r, rest)
      | .error f => .error (faultAfter (.missingField f.word) rest)

/-- The end of a list that has all its fields. -/
def readListEnd (cs : List Char) : Except Fault (List Char) :=
  match skipSpaces cs with
  | [] => .error ⟨.endInList, 0⟩
  | c :: rest =>
    if c = ']' then .ok rest
    else if c = ',' then
      match skipSpaces rest with
      | [] => .error ⟨.trailingCharacters, 0⟩
      | d :: more =>
        .error (faultAt (if d = ']' then .trailingComma else .trailingCharacters) (d :: more))
    else .error (faultAt .trailingCharacters (c :: rest))

/-- Whether a list goes on, with what follows the comma. -/
def nextItem? (isFirst : Bool) (cs : List Char) : Except Fault (Bool × List Char) :=
  if isFirst then
    match skipSpaces cs with
    | [] => .error ⟨.endInList, 0⟩
    | c :: rest => if c = ']' then .ok (false, rest) else .ok (true, c :: rest)
  else readListNext cs

/-- Reads the fields of a list in their order. A list that ends before the name is too short; after
that, missing fields are absent. -/
def readItems (count : Nat) (d : RecordDraft) :
    List RecordField → List Char → Except Fault (EntityRecord × List Char)
  | [], cs => do finished d (← readListEnd cs)
  | f :: fields, cs => do
    let (more, rest) ← nextItem? (count = 0) cs
    if more then
      let (d, rest) ← d.read f rest
      readItems (count + 1) d fields rest
    else finished d rest
where
  /-- The record of a list that has ended. -/
  finished (d : RecordDraft) (rest : List Char) : Except Fault (EntityRecord × List Char) :=
    match d.finish with
    | .ok r => .ok (r, rest)
    | .error f =>
      let length := if f = .kind then 0 else 1
      .error (faultAfter (.wrongLength length (shape ++ " with 8 elements")) rest)

/-- Reads a record. -/
def read (cs : List Char) : Except Fault (EntityRecord × List Char) :=
  match skipSpaces cs with
  | '\x7b' :: rest => readMembers (rest.length + 1) true {} rest
  | '[' :: rest => readItems 0 {} RecordField.all rest
  | rest => refuse shape rest

/-- The record that a whole text describes, or what is wrong with the text. -/
def ofText (s : String) : Except Fault EntityRecord :=
  readWhole read s.toList

end EntityRecord

end LayerGraph
