import Projection.Document
import Projection.Schema.Registry

/-!
# Catalogs

A catalog is a document that lists entities with their attributes. Its entities may stand in any
order: what they refer to is checked when the registry is finalized.
-/

namespace Projection

/-- The word for the kind of an attribute in a catalog. -/
inductive KindWord where
  | scalar
  | id
  | association
  | idView
  | computed
  | deletedMarker
  deriving DecidableEq, Repr

namespace KindWord

/-- All words. -/
def all : List KindWord :=
  [scalar, id, association, idView, computed, deletedMarker]

/-- The word as it is written. -/
def text : KindWord → String
  | scalar => "scalar"
  | id => "id"
  | association => "association"
  | idView => "id_view"
  | computed => "computed"
  | deletedMarker => "logical_deleted"

/-- The kind with this word. -/
def ofWord? (word : String) : Option KindWord :=
  all.find? (·.text == word)

end KindWord

/-- What is wrong with an attribute in a catalog. -/
inductive CatalogGap where
  | target
  | association
  | type
  deriving DecidableEq, Repr

/-- The gap in words. -/
def CatalogGap.text : CatalogGap → String
  | target => "an association needs a `target`"
  | association => "an id view needs an `association`"
  | type => "missing `type`"

/-- What can be wrong with a catalog. -/
inductive CatalogFault where
  | unreadable (path : String) (reason : String)
  | malformed (path : String)
  | property (entity property : Name) (gap : CatalogGap)
  | schema (fault : SchemaFault)
  deriving DecidableEq, Repr

/-- The fault in words. -/
def CatalogFault.message : CatalogFault → String
  | unreadable path reason => "Failed to read schema \"" ++ path ++ "\": " ++ reason
  | malformed path => "Invalid schema \"" ++ path ++ "\""
  | property entity name gap =>
    "Invalid property `" ++ name ++ "` of `" ++ entity ++ "`: " ++ gap.text
  | schema fault => fault.message

namespace Catalog

/-- An attribute as a catalog gives it. -/
structure AttributeEntry where
  name : Name
  type : Option String
  nullable : Bool
  kind : KindWord
  target : Option Name
  many : Bool
  association : Option Name
  dependencies : List Name
  deriving Repr

/-- An entity as a catalog gives it. -/
structure EntityEntry where
  name : Name
  marker : Marker
  attributes : List AttributeEntry
  deriving Repr

/-! ### Reading -/

/-- Reads an attribute. -/
def AttributeEntry.ofDocument? (d : Document) : Option AttributeEntry := do
  let fields ← d.fields?
    ["name", "type", "nullable", "kind", "target", "many", "association", "dependencies"]
  return {
    name := ← fields.required Document.text? "name"
    type := ← fields.optional Document.text? "type"
    nullable := ← fields.withDefault Document.boolean? "nullable" false
    kind := ← fields.withDefault (fun d => d.word?.bind KindWord.ofWord?) "kind" .scalar
    target := ← fields.optional Document.text? "target"
    many := ← fields.withDefault Document.boolean? "many" false
    association := ← fields.optional Document.text? "association"
    dependencies := ← fields.withDefault (Document.listOf? Document.text?) "dependencies" [] }

/-- Reads an entity. -/
def EntityEntry.ofDocument? (d : Document) : Option EntityEntry := do
  let fields ← d.fields? ["name", "marker", "properties"]
  return {
    name := ← fields.required Document.text? "name"
    marker := ← fields.withDefault (fun d => d.word?.bind Marker.ofWord?) "marker" .unmarked
    attributes :=
      ← fields.withDefault (Document.listOf? AttributeEntry.ofDocument?) "properties" [] }

/-- Reads the entities of a catalog. -/
def ofDocument? (d : Document) : Option (List EntityEntry) := do
  let fields ← d.fields? ["entities"]
  fields.withDefault (Document.listOf? EntityEntry.ofDocument?) "entities" []

/-! ### Registration -/

/-- The kind of an attribute. -/
def AttributeEntry.kindOf (entry : AttributeEntry) : Except CatalogGap Kind :=
  match entry.kind with
  | .scalar => .ok (.scalar entry.target)
  | .id => .ok .id
  | .association =>
    match entry.target with
    | some target => .ok (.association target entry.many)
    | none => .error .target
  | .idView =>
    match entry.association with
    | some association => .ok (.idView association)
    | none => .error .association
  | .computed => .ok (.computed entry.dependencies)
  | .deletedMarker => .ok .deletedMarker

/-- The type of an attribute. Associations and embedded values have the name of their target if none
is given. -/
def AttributeEntry.typeOf (entry : AttributeEntry) (kind : Kind) : Except CatalogGap String :=
  match entry.type, kind with
  | some type, _ => .ok type
  | none, .association target many => .ok (Attribute.associationType target many)
  | none, .scalar (some target) => .ok (Name.simple target)
  | none, _ => .error .type

/-- The attribute that an entry describes. -/
def AttributeEntry.toAttribute (entry : AttributeEntry) : Except CatalogGap Attribute := do
  let kind ← entry.kindOf
  let type ← entry.typeOf kind
  return ⟨entry.name, type, entry.nullable, kind⟩

/-- The entity that an entry describes. -/
def EntityEntry.toEntity (entry : EntityEntry) : Except CatalogFault Entity := do
  let attributes ← entry.attributes.mapM fun a =>
    match a.toAttribute with
    | .ok a => Except.ok a
    | .error gap => .error (.property entry.name a.name gap)
  match Entity.ofAttributes entry.name entry.marker attributes with
  | .ok entity => .ok entity
  | .error fault => .error (.schema fault)

/-- Registers one more entity. -/
def register (r : Registry) (entry : EntityEntry) : Except CatalogFault Registry := do
  let entity ← entry.toEntity
  match r.register entity with
  | (.ok (), r) => .ok r
  | (.error fault, _) => .error (.schema fault)

/-- The registry of a catalog; `path` is where the document came from, and `none` a document that
could not be read as one. -/
def registry (path : String) (policy : Policy) (document : Option Document) :
    Except CatalogFault Registry :=
  match document.bind ofDocument? with
  | some entries => entries.foldlM register { policy }
  | none => .error (.malformed path)

end Catalog

end Projection
