import Projection.Dto
import Projection.Modifier.Traits
import Projection.Selection

/-!
# From sources to DTO types

`Source.compile` turns every declaration of a source into a DTO type. For each, the selections of
its body are found first; then come its modifiers, its annotations, its properties and its
user-defined properties. The first fault ends the work.
-/

namespace Projection

/-- What holds where a source says nothing. -/
structure Defaults where
  mutable : Bool := false
  stance : Stance := .static
  deriving DecidableEq, Repr

variable {P : Type}

/-! ### Annotations -/

/-- The mutability that the value of an argument asks for. -/
def Mutability.ofValue (value : Located P Value) : Except (Fault P) Mutability :=
  match value.val with
  | .constant name =>
    if Name.simple name == "MUTABLE" then .ok .mutable
    else if Name.simple name == "IMMUTABLE" then .ok .immutable
    else .ok .unspecified
  | _ => .error (.invalidMutability value)

/-- The values of all arguments `immutability` of annotations `Dto`. -/
def Mutability.requests (tags : List (TagItem P)) : List (Located P Value) :=
  (tags.filter fun tag => Name.simple tag.name.val == "Dto").flatMap fun tag =>
    (tag.arguments.filter (·.1.val == "immutability")).map (·.2)

/-- The mutability that annotations ask for; the last one counts. -/
def Mutability.resolve? (tags : List (TagItem P)) : Except (Fault P) Mutability :=
  (Mutability.requests tags).foldlM (fun _ value => Mutability.ofValue value) .unspecified

/-! ### User-defined properties -/

namespace UserProperty

/-- The default is one that the type takes. -/
def fits (type : TypeRef) (nullable : Bool) : Default → Bool
  | .null => nullable
  | .literal (.boolean _) => type.category == .boolean
  | .literal (.integer _) => type.category == .integral || type.category == .floating
  | .literal (.decimal _) => type.category == .floating
  | .literal (.quoted _) => type.category == .text

/-- Checks the default. A property that is not null needs one, unless its type has one. -/
def checkDefault (item : UserItem P) (nullable : Bool) : Except (Fault P) Unit :=
  match item.default with
  | none =>
    if !nullable && !item.type.val.hasImplicitDefault then
      .error (.missingDefault item.name.val item.type)
    else .ok ()
  | some value =>
    if fits item.type.val nullable value.val then .ok ()
    else .error (.invalidDefault item.name.val item.type value)

/-- A user-defined property. In a specification it is always nullable. -/
def ofItem (traits : Traits) (item : UserItem P) : Except (Fault P) UserProperty := do
  let nullable := item.type.val.nullable || traits.role == .specification
  checkDefault item nullable
  return {
    name := item.name.val
    type := item.type.val
    nullable
    default := item.default.map (·.val)
    tags := item.tags.map Tag.ofItem }

/-- The user-defined properties of a type; `outputs` holds the names before them. -/
def ofItems (type : Name) (traits : Traits) (outputs : List (Located P Name)) :
    List (UserItem P) → Except (Fault P) (List UserProperty)
  | [] => .ok []
  | item :: items =>
    match outputs.find? (·.val == item.name.val) with
    | some first => .error (.duplicateUser type item.name first.pos)
    | none => do
      let property ← ofItem traits item
      return property :: (← ofItems type traits (outputs ++ [item.name]) items)

end UserProperty

/-! ### Properties -/

namespace Property

variable (schema : Schema) (traits : Traits) (mutable : Bool)

/-- The attribute that a selection reads. -/
def attributeOf (pick : Pick P) : Except (Fault P) Attribute :=
  match schema.attribute? pick.entity pick.source.val with
  | some a => .ok a
  | none => .error (.unknownProperty pick.entity pick.source
      ((schema.attributesOf pick.entity).map (·.name)))

/-- Checks that the attribute may be selected: the logically-deleted marker only if that is allowed,
a computed attribute only if all it depends on is there. -/
def checkKind (pick : Pick P) (a : Attribute) : Except (Fault P) Unit :=
  match a.kind with
  | .deletedMarker =>
    if traits.includeDeleted then .ok () else .error (.deletedSelected pick.entity pick.source)
  | .computed dependencies =>
    match dependencies.find? fun d => (schema.attribute? pick.entity d).isNone with
    | some missing => .error (.missingDependency pick.entity pick.source missing)
    | none => .ok ()
  | _ => .ok ()

/-- Checks that a mark `!` stands in an input. -/
def checkMark (nullability : Option (Located P Nullability)) : Except (Fault P) Unit :=
  match nullability with
  | some ⟨.nonNull, pos⟩ => if traits.isInput then .ok () else .error (.nonNullOutsideInput pos)
  | _ => .ok ()

/-- A mark decides whether a property is nullable. Without one it is, if the attribute is, or one on
the way to it, or if the type is a specification. -/
def isNullable (pick : Pick P) (a : Attribute) : Bool :=
  match pick.nullability with
  | some ⟨.nullable, _⟩ => true
  | some ⟨.nonNull, _⟩ => false
  | none => a.nullable || pick.throughNullable || traits.role == .specification

/-- The type of the id behind an association. -/
def idType (pick : Pick P) (a : Attribute) : Except (Fault P) String :=
  match (a.kind.target?.bind schema.entity?).bind (·.id?) with
  | some id => .ok id.type
  | none => .error (.ineligible .idOnly pick.source .targetWithoutId)

/-- What a property of this form holds, with its type. -/
def ofForm (pick : Pick P) (a : Attribute) : Form → Except (Fault P) (String × Target)
  | .value =>
    match a.kind with
    | .association target _ => .ok (a.type, .entity target)
    | _ => .ok (a.type, .value)
  | .idOnly => do
    let type ← idType schema pick a
    return (if a.kind.isMany then "List<" ++ type ++ ">" else type, .idOnly type)
  | .recursive type => .ok (type, .recursive type)

/-- What is known about the property for a selection of an attribute. -/
def infoOf (pick : Pick P) (a : Attribute) (type : String) : PropertyInfo where
  name := pick.name
  source := a.name
  newName := pick.newName
  path := pick.path
  kind := a.kind
  type := type
  nullable := isNullable traits pick a
  nullability := pick.nullability.map (·.val)
  many := a.kind.isMany

/-- The attribute of a selection that may be selected with its mark. -/
def bound (pick : Pick P) : Except (Fault P) Attribute := do
  let a ← attributeOf schema pick
  checkKind schema traits pick a
  checkMark traits pick.nullability
  return a

/-- Where a selection was written out: the attribute with the way to it. -/
def origin? (pick : Pick P) : Option (Located P (List Name × Name)) :=
  if pick.explicit then some ⟨(pick.path, pick.source.val), pick.source.pos⟩ else none

/-- What the properties before one have taken: attributes written out, and names in the output. -/
structure Taken (P : Type) where
  origins : List (Located P (List Name × Name)) := []
  outputs : List (Located P Name) := []

/-- Refuses an attribute that was written out before. -/
def Taken.checkOrigin (taken : Taken P) (pick : Pick P) : Except (Fault P) Unit :=
  match (origin? pick).bind fun o => taken.origins.find? (·.val == o.val) with
  | some first => .error (.selectedTwice pick.source first.pos)
  | none => .ok ()

/-- Refuses a name that was put out before. -/
def Taken.checkOutput (taken : Taken P) (type : Name) (pick : Pick P) : Except (Fault P) Unit :=
  match taken.outputs.find? (·.val == pick.name) with
  | some first => .error (.duplicateOutput type ⟨pick.name, pick.source.pos⟩ first.pos)
  | none => .ok ()

/-- What is taken with one more property. -/
def Taken.add (taken : Taken P) (pick : Pick P) : Taken P where
  origins := taken.origins ++ (origin? pick).toList
  outputs := taken.outputs ++ [⟨pick.name, pick.source.pos⟩]

mutual

/-- The property for a selection. -/
def ofSelection : Selection P → Except (Fault P) Property
  | .leaf pick form => do
    let a ← bound schema traits pick
    let (type, target) ← ofForm schema pick a form
    return leaf (infoOf traits pick a type) target
  | .nested pick entity type inner => do
    let a ← bound schema traits pick
    let properties ← ofSelections type {} inner
    return nested (infoOf traits pick a type) ⟨entity, type, traits, mutable⟩ properties

/-- The properties of a type for its selections. -/
def ofSelections (type : Name) (taken : Taken P) :
    List (Selection P) → Except (Fault P) (List Property)
  | [] => .ok []
  | s :: rest => do
    taken.checkOrigin s.pick
    let property ← ofSelection s
    taken.checkOutput type s.pick
    return property :: (← ofSelections type (taken.add s.pick) rest)

end

end Property

/-! ### Declarations -/

/-- The user-defined properties of a body. -/
def Body.users (body : Body P) : List (UserItem P) :=
  body.items.filterMap fun
    | .user item => some item
    | _ => none

/-- The DTO type of a declaration. -/
def Dto.ofDeclaration (schema : Schema) (defaults : Defaults) (entity : Name)
    (shared : List (Located P Modifier)) (d : Declaration P) : Except (Fault P) Dto := do
  let type := d.name.val
  let selections ← Selection.ofBody schema entity type d.body
  let traits ← Traits.resolve shared d.modifiers defaults.stance
  let mutability ← Mutability.resolve? d.tags
  let mutable := mutability.resolve defaults.mutable
  let properties ← Property.ofSelections schema traits mutable type {} selections
  let outputs := selections.map fun s => (⟨s.name, s.pick.source.pos⟩ : Located P Name)
  let users ← UserProperty.ofItems type traits outputs d.body.users
  return {
    outline := ⟨entity, type, traits, mutable⟩
    tags := d.tags.map Tag.ofItem
    mutability
    properties
    users }

namespace Source

/-- Refuses a type that is declared twice. -/
def checkNames (seen : List (Located P Name)) : List (Declaration P) → Except (Fault P) Unit
  | [] => .ok ()
  | d :: ds =>
    match seen.find? (·.val == d.name.val) with
    | some first => .error (.duplicateType d.name first.pos)
    | none => checkNames (seen ++ [d.name]) ds

/-- Tells in which declaration a fault is. -/
def inDeclaration (d : Declaration P) {α : Type} (result : Except (Fault P) α) :
    Except (Fault P) α :=
  match result with
  | .ok a => .ok a
  | .error fault => .error (.within d.name.val fault)

/-- The DTO types of a source. -/
def compile (schema : Schema) (defaults : Defaults) (s : Source P) :
    Except (Fault P) (List Dto) :=
  if (schema.entity? s.entity.val).isNone then .error (.unknownEntity s.entity)
  else do
    checkNames [] s.declarations
    s.declarations.mapM fun d =>
      inDeclaration d (Dto.ofDeclaration schema defaults s.entity.val s.modifiers d)

end Source

/-- The report of a fault. -/
def Fault.report (fault : Fault Span) : Report :=
  ⟨[fault.diagnostic]⟩

end Projection
