import LayerGraph.Key
import LayerGraph.Json.Value

/-!
# Entity records

A record declares one entity of a project and the names of what it depends on. The migration order
and the layer are written back onto it; everything else belongs to whoever wrote the record.
-/

namespace LayerGraph

/-- What a record declares. There are no records of unresolved names. -/
inductive EntityKind
  | table
  | classDef
  | procedure
  | page
deriving DecidableEq, Repr, Inhabited

namespace EntityKind

/-- All kinds, in the order in which a project is read. -/
def all : List EntityKind := [.table, .classDef, .procedure, .page]

/-- The type of the entity's node. -/
def nodeType : EntityKind → NodeType
  | table => .table
  | classDef => .classDef
  | procedure => .procedure
  | page => .page

/-- The kind of the records that declare entities of a type. -/
def ofNodeType? : NodeType → Option EntityKind
  | .table => some table
  | .classDef => some classDef
  | .procedure => some procedure
  | .page => some page
  | .external => none

/-- The kind's name in messages. -/
def name (k : EntityKind) : String := k.nodeType.name

/-- The word for the kind in a record. -/
def word : EntityKind → String
  | table => "table"
  | classDef => "class"
  | procedure => "procedure"
  | page => "page"

end EntityKind

/-- A record as it was read: names are kept as they were written. -/
structure EntityRecord where
  kind : EntityKind
  name : String
  parentClass : Option String := none
  usesTables : List String := []
  callsProcedures : List String := []
  usesClasses : List String := []
  order : Option Int := none
  layer : Option Layer := none
deriving DecidableEq, Repr, Inhabited

namespace EntityRecord

/-- The key of the name as it was written. -/
def rawKey (r : EntityRecord) : NodeKey := ⟨r.kind.nodeType, r.name⟩

/-- The key of the entity: blanks around the name do not matter. -/
def key (r : EntityRecord) : NodeKey := ⟨r.kind.nodeType, Text.trim r.name⟩

/-- Whether the name has anything but blanks. -/
def isNamed (r : EntityRecord) : Bool := !Text.isBlankText r.name

/-- The declared relations: the parent first, then tables, procedures and classes. -/
def relations (r : EntityRecord) : List (EdgeKind × String) :=
  r.parentClass.toList.map (.inherits, ·) ++ r.usesTables.map (.usesTable, ·) ++
    r.callsProcedures.map (.callsProcedure, ·) ++ r.usesClasses.map (.usesClass, ·)

/-- The record as an object. What is absent or empty is left out. -/
def toJson (r : EntityRecord) : Json.Value :=
  let texts (name : String) (ss : List String) : List (String × Json.Value) :=
    if ss.isEmpty then [] else [(name, .texts ss)]
  .obj <|
    [("kind", .str r.kind.word), ("name", .str r.name)] ++
    (r.parentClass.toList.map fun p => ("parent_class", .str p)) ++
    texts "uses_tables" r.usesTables ++
    texts "calls_procedures" r.callsProcedures ++
    texts "uses_classes" r.usesClasses ++
    (r.order.toList.map fun o => ("topological_order", .int o)) ++
    (r.layer.toList.map fun l => ("layer", .str l.name))

/-- The record as a line of a record file, without its end. -/
def line (r : EntityRecord) : String := r.toJson.compact

/-- The record that carries an order and a layer. -/
def withOrder (r : EntityRecord) (order : Int) (layer : Option Layer) : EntityRecord :=
  { r with order := some order, layer }

end EntityRecord

end LayerGraph
