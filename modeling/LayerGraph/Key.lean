import LayerGraph.Text.Blank
import LayerGraph.Text.AsciiCase

/-!
# Keys: the identity of an entity

An entity is identified by its type and its name, written `Type:Name`. Types belong to layers, and
a relation of a given kind points at one type.

Keys are totally ordered, by type and then by name: the instances `Std.TransOrd NodeKey` and
`Std.LawfulEqOrd NodeKey` say so. `NodeKey.eq_of_splitAtColon` says that cutting a text at its first
colon loses nothing.
-/

namespace LayerGraph

/-! ## Types, layers and relation kinds -/

/-- What kind of entity a node stands for. `external` marks a name that no record of the project
declares, such as a base class of a framework. -/
inductive NodeType
  | table
  | classDef
  | procedure
  | page
  | external
deriving DecidableEq, Repr, Inhabited

/-- The architectural tiers, in the order in which they are migrated. -/
inductive Layer
  | schema
  | domain
  | business
  | ui
deriving DecidableEq, Repr, Inhabited

/-- How one entity depends on another. -/
inductive EdgeKind
  | inherits
  | usesTable
  | callsProcedure
  | usesClass
deriving DecidableEq, Repr, Inhabited

namespace NodeType

/-- All types, in key order. -/
def all : List NodeType := [.table, .classDef, .procedure, .page, .external]

/-- The place of a type in key order. -/
def rank : NodeType → Nat
  | table => 0
  | classDef => 1
  | procedure => 2
  | page => 3
  | external => 4

/-- The type's name as it stands in keys. -/
def name : NodeType → String
  | table => "Table"
  | classDef => "Class"
  | procedure => "Procedure"
  | page => "Page"
  | external => "External"

/-- The type's name as it stands in answers that count by type, and in JSON. -/
def upperName : NodeType → String
  | table => "TABLE"
  | classDef => "CLASS"
  | procedure => "PROCEDURE"
  | page => "PAGE"
  | external => "EXTERNAL"

/-- The layer of the type's nodes; an unresolved name belongs to none. -/
def layer : NodeType → Option Layer
  | table => some .schema
  | classDef => some .domain
  | procedure => some .business
  | page => some .ui
  | external => none

/-- Reads a type name: blanks around it and the case of ASCII letters do not matter. -/
def ofText? (s : String) : Option NodeType :=
  all.find? fun t => Text.sameAsciiCase t.name (Text.trim s)

instance : Ord NodeType := ⟨compareOn rank⟩

instance : Std.TransOrd NodeType := inferInstanceAs (Std.TransCmp (compareOn rank))

theorem rank_injective : ∀ {a b : NodeType}, a.rank = b.rank → a = b := by
  intro a b
  cases a <;> cases b <;> simp [rank]

instance : Std.LawfulEqOrd NodeType where
  eq_of_compare h := rank_injective (Nat.compare_eq_eq.1 h)

end NodeType

namespace Layer

/-- The layers in order of precedence. -/
def all : List Layer := [.schema, .domain, .business, .ui]

/-- The place of a layer in the order of precedence, from 1; nodes without a layer come before all
of them, at 0. -/
def rank : Layer → Nat
  | schema => 1
  | domain => 2
  | business => 3
  | ui => 4

/-- The layer's name as records carry it. -/
def name : Layer → String
  | schema => "SCHEMA"
  | domain => "DOMAIN"
  | business => "BUSINESS"
  | ui => "UI"

/-- Reads a layer name: blanks around it and the case of ASCII letters do not matter. -/
def ofText? (s : String) : Option Layer :=
  all.find? fun l => Text.sameAsciiCase l.name (Text.trim s)

/-- The place of an optional layer: no layer comes first. -/
def rankOf : Option Layer → Nat
  | none => 0
  | some l => l.rank

end Layer

namespace EdgeKind

/-- All kinds, in their order. -/
def all : List EdgeKind := [.inherits, .usesTable, .callsProcedure, .usesClass]

/-- The place of a kind in the order of edges. -/
def rank : EdgeKind → Nat
  | inherits => 0
  | usesTable => 1
  | callsProcedure => 2
  | usesClass => 3

/-- The kind's name. -/
def name : EdgeKind → String
  | inherits => "INHERITS"
  | usesTable => "USES_TABLE"
  | callsProcedure => "CALLS_PROCEDURE"
  | usesClass => "USES_CLASS"

/-- Reads the name of a kind: blanks around it and the case of ASCII letters do not matter. -/
def ofText? (s : String) : Option EdgeKind :=
  all.find? fun k => Text.sameAsciiCase k.name (Text.trim s)

/-- The type that a relation of this kind is expected to point at. -/
def targetType : EdgeKind → NodeType
  | inherits | usesClass => .classDef
  | usesTable => .table
  | callsProcedure => .procedure

instance : Ord EdgeKind := ⟨compareOn rank⟩

instance : Std.TransOrd EdgeKind := inferInstanceAs (Std.TransCmp (compareOn rank))

theorem rank_injective : ∀ {a b : EdgeKind}, a.rank = b.rank → a = b := by
  intro a b
  cases a <;> cases b <;> simp [rank]

instance : Std.LawfulEqOrd EdgeKind where
  eq_of_compare h := rank_injective (Nat.compare_eq_eq.1 h)

end EdgeKind

/-! ## Keys -/

/-- The identity of an entity: its type and its name, the latter unique within the type. -/
structure NodeKey where
  type : NodeType
  name : String
deriving DecidableEq, Repr, Inhabited

/-- Why a text is not a key. -/
inductive KeyFault
  | noColon
  | unknownType
  | blankName
deriving DecidableEq, Repr

/-- The wording of a key fault. -/
def KeyFault.reason : KeyFault → String
  | noColon => "expected Type:Name"
  | unknownType => "unknown node type (expected Table, Class, Procedure, Page or External)"
  | blankName => "name must not be empty"

namespace NodeKey

/-- The text form `Type:Name`. -/
def text (k : NodeKey) : String :=
  k.type.name ++ ":" ++ k.name

/-- What stands before and after the first colon, if there is one. -/
def splitAtColon : List Char → Option (List Char × List Char)
  | [] => none
  | c :: rest =>
    if c = ':' then some ([], rest)
    else (splitAtColon rest).map fun (front, back) => (c :: front, back)

/-- Reads a key. Only the first colon divides, so a name may hold colons, and the name is kept
with its blanks unless it has nothing else. -/
def ofText (s : String) : Except KeyFault NodeKey :=
  match splitAtColon s.toList with
  | none => .error .noColon
  | some (front, back) =>
    match NodeType.ofText? (String.ofList front) with
    | none => .error .unknownType
    | some type =>
      if back.all Text.isBlank then .error .blankName
      else .ok ⟨type, String.ofList back⟩

/-- The key that a text stands for, if it stands for one. -/
def ofText? (s : String) : Option NodeKey :=
  (ofText s).toOption

/-- Whether the key stands for an unresolved name. -/
def isExternal (k : NodeKey) : Bool :=
  k.type = .external

/-- The layer of the entity with this key. -/
def layer (k : NodeKey) : Option Layer :=
  k.type.layer

/-- Keys order by type and then by name, names by code point. -/
instance : Ord NodeKey := ⟨compareLex (compareOn NodeKey.type) (compareOn NodeKey.name)⟩

instance : Std.TransOrd NodeKey :=
  inferInstanceAs (Std.TransCmp (compareLex (compareOn NodeKey.type) (compareOn NodeKey.name)))

instance : Std.LawfulEqOrd NodeKey where
  eq_of_compare {a b} h := by
    have both := compareLex_eq_eq.1 h
    have type_eq : a.type = b.type := Std.LawfulEqOrd.eq_of_compare both.1
    have name_eq : a.name = b.name := Std.LawfulEqOrd.eq_of_compare both.2
    cases a
    cases b
    simp_all

/-- Rejoining what stands around the first colon gives the text back. -/
theorem eq_of_splitAtColon :
    ∀ {cs front back : List Char}, splitAtColon cs = some (front, back) →
      cs = front ++ ':' :: back ∧ ':' ∉ front
  | [], _, _, h => by simp [splitAtColon] at h
  | c :: rest, front, back, h => by
    by_cases hc : c = ':'
    · simp only [splitAtColon, hc, if_true, Option.some.injEq, Prod.mk.injEq] at h
      obtain ⟨rfl, rfl⟩ := h
      simp [hc]
    · simp only [splitAtColon, hc, if_false, Option.map_eq_some_iff] at h
      obtain ⟨⟨front', back'⟩, hsplit, heq⟩ := h
      obtain ⟨rfl, rfl⟩ := Prod.mk.injEq .. ▸ heq
      obtain ⟨rfl, notin⟩ := eq_of_splitAtColon hsplit
      exact ⟨rfl, by simp [notin, Ne.symm hc]⟩

end NodeKey

end LayerGraph
