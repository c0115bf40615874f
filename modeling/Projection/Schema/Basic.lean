import Projection.Name

/-!
# Entities

What is known about the records that DTO types are declared for: their attributes with type,
nullability and kind, and the marker that makes an entity eligible. A `Schema` is the view of them
that compilation sees.
-/

namespace Projection

/-- What a record is. Only an entity with a marker can have DTO types. -/
inductive Marker where
  | entity
  | embeddable
  | immutable
  | unmarked
  deriving DecidableEq, Repr

namespace Marker

/-- All markers. -/
def all : List Marker :=
  [entity, embeddable, immutable, unmarked]

/-- The word for a marker in a catalog. -/
def word : Marker → String
  | entity => "entity"
  | embeddable => "embeddable"
  | immutable => "immutable"
  | unmarked => "none"

/-- The marker with this word. -/
def ofWord? (word : String) : Option Marker :=
  all.find? (·.word == word)

/-- The answer to a word that names no marker. -/
def unknownWord : String :=
  "Unsupported schema marker"

/-- The marker as it is shown. -/
def text : Marker → String
  | entity => "Entity"
  | embeddable => "Embeddable"
  | immutable => "Immutable"
  | unmarked => "None"

/-- The marker makes an entity eligible. -/
def isRecognized (m : Marker) : Bool :=
  m != unmarked

end Marker

/-- The kind of an attribute. -/
inductive Kind where
  /-- A value, which may be an embedded record. -/
  | scalar (embedded : Option Name)
  | id
  | association (target : Name) (many : Bool)
  /-- The id behind an association of the same entity. -/
  | idView (association : Name)
  | computed (dependencies : List Name)
  | deletedMarker
  deriving DecidableEq, Repr

namespace Kind

/-- A scalar or the id. -/
def isScalar : Kind → Bool
  | scalar _ | id => true
  | _ => false

/-- An association. -/
def isAssociation : Kind → Bool
  | association .. => true
  | _ => false

/-- An association to many entities. -/
def isMany : Kind → Bool
  | association _ many => many
  | _ => false

/-- The entity behind an association or an embedded value. -/
def target? : Kind → Option Name
  | association target _ => some target
  | scalar embedded => embedded
  | _ => none

/-- The kind in words. -/
def text : Kind → String
  | scalar none => "scalar"
  | scalar (some target) => "embedded `" ++ target ++ "`"
  | id => "id"
  | association target false => "to-one association to `" ++ target ++ "`"
  | association target true => "to-many association to `" ++ target ++ "`"
  | idView viewed => "id view of `" ++ viewed ++ "`"
  | computed _ => "computed"
  | deletedMarker => "logically-deleted marker"

end Kind

/-- An attribute of an entity. -/
structure Attribute where
  name : Name
  type : String
  nullable : Bool
  kind : Kind
  deriving DecidableEq, Repr

namespace Attribute

/-- The declared type of an association: the simple name of its target, or a list of it. -/
def associationType (target : Name) (many : Bool) : String :=
  if many then "List<" ++ Name.simple target ++ ">" else Name.simple target

/-- An attribute that is not null. -/
def scalar (name : Name) (type : String) : Attribute :=
  ⟨name, type, false, .scalar none⟩

/-- The id of an entity. -/
def id (name : Name) (type : String) : Attribute :=
  ⟨name, type, false, .id⟩

/-- An association that is not null. -/
def association (name target : Name) (many : Bool) : Attribute :=
  ⟨name, associationType target many, false, .association target many⟩

/-- An embedded value that is not null. -/
def embedded (name target : Name) : Attribute :=
  ⟨name, Name.simple target, false, .scalar (some target)⟩

/-- An id view that is not null. -/
def idView (name : Name) (type : String) (association : Name) : Attribute :=
  ⟨name, type, false, .idView association⟩

/-- A computed attribute that is not null. -/
def computed (name : Name) (type : String) (dependencies : List Name) : Attribute :=
  ⟨name, type, false, .computed dependencies⟩

/-- The logically-deleted marker, which is null while the record lives. -/
def deletedMarker (name : Name) (type : String) : Attribute :=
  ⟨name, type, true, .deletedMarker⟩

end Attribute

/-- What can be wrong with a schema. -/
inductive SchemaFault where
  | duplicateEntity (entity : Name)
  | duplicateProperty (entity property : Name)
  | unknownTarget (entity property target : Name)
  | invalidIdView (entity property association : Name)
  | finalized
  deriving DecidableEq, Repr

/-- The fault in words. -/
def SchemaFault.message : SchemaFault → String
  | duplicateEntity entity => "entity `" ++ entity ++ "` is registered more than once"
  | duplicateProperty entity property =>
    "property `" ++ property ++ "` is declared more than once on `" ++ entity ++ "`"
  | unknownTarget entity property target =>
    "property `" ++ entity ++ "." ++ property ++ "` refers to unknown entity `" ++ target ++ "`"
  | invalidIdView entity property association =>
    "id view `" ++ entity ++ "." ++ property ++ "` must name an association of `" ++ entity ++
      "`, but `" ++ association ++ "` is not one"
  | finalized => "the schema is finalized and can no longer be modified"

/-- The first name that stands in a list for the second time. -/
def firstRepeat? (seen : List Name) : List Name → Option Name
  | [] => none
  | name :: names => if seen.contains name then some name else firstRepeat? (name :: seen) names

/-- An entity with its attributes in order, of which no two have one name. -/
structure Entity where
  name : Name
  marker : Marker
  attributes : List Attribute
  distinct : (attributes.map (·.name)).Nodup

namespace Entity

/-- The entity with these attributes, unless a name is repeated. -/
def ofAttributes (name : Name) (marker : Marker) (attributes : List Attribute) :
    Except SchemaFault Entity :=
  if h : (attributes.map (·.name)).Nodup then .ok ⟨name, marker, attributes, h⟩
  else .error (.duplicateProperty name ((firstRepeat? [] (attributes.map (·.name))).getD ""))

/-- The attribute with this name. -/
def attribute? (e : Entity) (name : Name) : Option Attribute :=
  e.attributes.find? (·.name == name)

/-- The first attribute that is an id. -/
def id? (e : Entity) : Option Attribute :=
  e.attributes.find? (·.kind == .id)

/-- The first id view of an association. -/
def idViewOf? (e : Entity) (association : Name) : Option Attribute :=
  e.attributes.find? (·.kind == .idView association)

/-- The targets of the associations of an entity. -/
def neighbours (e : Entity) : List Name :=
  e.attributes.filterMap fun a => if a.kind.isAssociation then a.kind.target? else none

end Entity

/-- The view of a schema after its last entity was registered: which entities there are, and which
lead to which through associations. -/
structure Schema where
  entity? : Name → Option Entity
  reaches : Name → Name → Bool

namespace Schema

/-- The attributes of an entity, none if it is unknown. -/
def attributesOf (s : Schema) (entity : Name) : List Attribute :=
  ((s.entity? entity).map (·.attributes)).getD []

/-- One attribute of an entity. -/
def attribute? (s : Schema) (entity name : Name) : Option Attribute :=
  (s.attributesOf entity).find? (·.name == name)

end Schema

end Projection
