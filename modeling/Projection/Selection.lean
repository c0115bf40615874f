import Projection.Fault

/-!
# Selections

A selection is one property that a body selects, after macros, flattened bodies, id-only items and
alias groups have been spelled out. `Selection.ofBody` finds the selections of a body, in the order
in which they are written; those of a macro take its place.

* `#allScalars` selects every scalar and the id, in the order of the entity.
* `#allReferences` selects the id of every to-one association.
* `flat(p) ⟨items⟩` selects what its body selects from the target of `p`, with longer names.
* `id(p)` selects the id view of `p`, or else the id of its target.
* `p*` is of the innermost enclosing DTO type whose entity is the target of `p`.
* `p ⟨items⟩` is of a new type with the selections of its body.
* An alias group renames what its items select, unless they have a name of their own.

A macro leaves out what the body names itself, and `-name` takes away what the body would put out
under that name.
-/

namespace Projection

/-- What is known about every selection. -/
structure Pick (P : Type) where
  /-- The entity that has `source`. -/
  entity : Name
  source : Located P Name
  /-- The flattened attributes on the way to `entity`, the outermost first. -/
  path : List Name
  /-- The name in the output. -/
  name : Name
  newName : Option Name
  nullability : Option (Located P Nullability)
  /-- An attribute on the way is nullable. -/
  throughNullable : Bool
  /-- The property was written out, not found by a macro. -/
  explicit : Bool
  deriving Repr

/-- What a selection without a body stands for. -/
inductive Form where
  | value
  | idOnly
  /-- A value of the enclosing type with this name. -/
  | recursive (type : Name)
  deriving DecidableEq, Repr

/-- A selected property. A nested selection becomes a type of its own, with an entity and a name. -/
inductive Selection (P : Type) where
  | leaf (pick : Pick P) (form : Form)
  | nested (pick : Pick P) (entity type : Name) (inner : List (Selection P))
  deriving Repr

/-- An enclosing DTO type. -/
structure Scope where
  entity : Name
  type : Name
  deriving DecidableEq, Repr

/-- Where items stand: the entity they select from, the enclosing types with the innermost first,
the names that the body selects itself, and the pattern of the alias group around them. -/
structure Site where
  entity : Name
  scopes : List Scope
  explicit : List Name
  place : Place
  pattern : Option AliasPattern := none
  deriving Repr

namespace Selection

variable {P : Type}

/-- What is known about the selection. -/
def pick : Selection P → Pick P
  | leaf pick _ => pick
  | nested pick _ _ _ => pick

/-- Changes what is known about the selection. -/
def mapPick (f : Pick P → Pick P) : Selection P → Selection P
  | leaf pick form => leaf (f pick) form
  | nested pick entity type inner => nested (f pick) entity type inner

/-- The name in the output. -/
def name (s : Selection P) : Name :=
  s.pick.name

/-! ### Names -/

/-- The name of the type for the body of a property. -/
def nestedTypeName (property : Name) : Name :=
  "TargetOf_" ++ property

/-- The name of the ids behind an association: `department` gives `departmentId` and `employees`
gives `employeeIds`. -/
def idOnlyName (property : Name) (many : Bool) : Name :=
  if many then
    ((AliasPattern.withoutTail? ['s'] property.toList).map String.ofList).getD property ++ "Ids"
  else property ++ "Id"

mutual

/-- The names that an item selects itself. -/
def explicitNames : Item P → List Name
  | .plain head => [head.name.val]
  | .nested head _ _ => [head.name.val]
  | .idOnly property _ _ => [property.val]
  | .flatten property _ _ _ => [property.val]
  | .group _ items _ => explicitNamesAll items
  | .bundle .. | .negative _ | .user _ => []

/-- The names that items select themselves. -/
def explicitNamesAll : List (Item P) → List Name
  | [] => []
  | item :: items => explicitNames item ++ explicitNamesAll items

end

/-! ### Negatives -/

/-- The names that a body takes away. -/
def negatives (items : List (Item P)) : List (Located P Name) :=
  items.filterMap fun
    | .negative name => some name
    | _ => none

/-- Refuses a name that is taken away twice. -/
def checkNegatives (seen : List (Located P Name)) : List (Located P Name) → Except (Fault P) Unit
  | [] => .ok ()
  | name :: names =>
    match seen.find? (·.val == name.val) with
    | some first => .error (.duplicateNegative name first.pos)
    | none => checkNegatives (seen ++ [name]) names

/-- Takes names away, each of which must be there. -/
def prune : List (Located P Name) → List (Selection P) → Except (Fault P) (List (Selection P))
  | [], selections => .ok selections
  | name :: names, selections =>
    if selections.any (·.name == name.val) then
      prune names (selections.filter (·.name != name.val))
    else .error (.idleNegative name)

/-- The selections of a body, given those of its items. -/
def bodyOf (items : List (Item P)) (selected : Except (Fault P) (List (Selection P))) :
    Except (Fault P) (List (Selection P)) := do
  checkNegatives [] (negatives items)
  prune (negatives items) (← selected)

/-! ### Single items -/

/-- The attributes that a macro stands for. -/
def macroAttributes (schema : Schema) (entity : Name) (name : Located P Name) :
    Except (Fault P) (List Attribute) :=
  if name.val == "allScalars" then
    .ok ((schema.attributesOf entity).filter (·.kind.isScalar))
  else if name.val == "allReferences" then
    .ok ((schema.attributesOf entity).filter fun a => a.kind.isAssociation && !a.kind.isMany)
  else .error (.unknownMacro name)

/-- What a macro selects for one attribute: the id behind an association, any other value itself. -/
def ofMacro (entity : Name) (name : Located P Name) (nullability : Option (Located P Nullability))
    (a : Attribute) : Selection P :=
  let pick (output : Name) : Pick P :=
    { entity, source := ⟨a.name, name.pos⟩, path := [], name := output, newName := none
      nullability,
      throughNullable := false, explicit := false }
  if a.kind.isAssociation then leaf (pick (idOnlyName a.name a.kind.isMany)) .idOnly
  else leaf (pick a.name) .value

/-- A macro leaves out what the body selects itself. -/
def bundle (schema : Schema) (site : Site) (name : Located P Name)
    (nullability : Option (Located P Nullability)) : Except (Fault P) (List (Selection P)) := do
  let attributes ← macroAttributes schema site.entity name
  return (attributes.filter fun a => !site.explicit.contains a.name).map
    (ofMacro site.entity name nullability)

/-- What is known about a plain selection. -/
def plainPick (entity : Name) (head : Selected P) : Pick P where
  entity := entity
  source := head.name
  path := []
  name := (head.newName.map (·.val)).getD head.name.val
  newName := head.newName.map (·.val)
  nullability := head.nullability
  throughNullable := false
  explicit := true

/-- The type that a recursive property is of. -/
def recursiveForm (schema : Schema) (site : Site) (property : Located P Name) :
    Except (Fault P) Form :=
  match schema.attribute? site.entity property.val with
  | none => .error (.ineligible .recursion property (.unknown site.entity))
  | some a =>
    match a.kind with
    | .association target _ =>
      match site.scopes.find? (·.entity == target) with
      | some scope => .ok (.recursive scope.type)
      | none => .error (.ineligible .recursion property
          (.notEnclosing property.val target site.entity (schema.reaches target site.entity)))
    | kind => .error (.ineligible .recursion property (.kind kind))

/-- A plain item without a body. -/
def plain (schema : Schema) (site : Site) (head : Selected P) :
    Except (Fault P) (List (Selection P)) := do
  let form ← if head.recursive then recursiveForm schema site head.name else pure .value
  return [leaf (plainPick site.entity head) form]

/-- The id view of an association, or else the id of its target. -/
def idOnly (schema : Schema) (site : Site) (property : Located P Name)
    (nullability : Option (Located P Nullability)) (newName : Option (Located P Name)) :
    Except (Fault P) (List (Selection P)) :=
  match schema.attribute? site.entity property.val with
  | none => .error (.ineligible .idOnly property (.unknown site.entity))
  | some a =>
    if a.kind.isAssociation then
      let pick (source output : Name) : Pick P :=
        { entity := site.entity, source := ⟨source, property.pos⟩, path := []
          name := (newName.map (·.val)).getD output, newName := newName.map (·.val), nullability
          throughNullable := false, explicit := true }
      match (schema.entity? site.entity).bind (·.idViewOf? property.val) with
      | some view => .ok [leaf (pick view.name view.name) .value]
      | none => .ok [leaf (pick property.val (idOnlyName property.val a.kind.isMany)) .idOnly]
    else .error (.ineligible .idOnly property (.kind a.kind))

/-- The attribute that is flattened, with its target. -/
def flattened (schema : Schema) (site : Site) (property : Located P Name) :
    Except (Fault P) (Attribute × Name) :=
  match schema.attribute? site.entity property.val with
  | none => .error (.ineligible .flatten property (.unknown site.entity))
  | some a =>
    match a.kind with
    | .association target false | .scalar (some target) => .ok (a, target)
    | .association _ true => .error (.ineligible .flatten property .toMany)
    | kind => .error (.ineligible .flatten property (.kind kind))

/-- A selection seen from before the flattened attribute, with `lead` before its name. -/
def through (lead : Name) (a : Attribute) (s : Selection P) : Selection P :=
  s.mapPick fun pick => { pick with
    name := Name.after pick.name lead
    path := a.name :: pick.path
    throughNullable := pick.throughNullable || a.nullable }

/-- What an item selects, renamed by the pattern around it. An alias stays, of the item or of one
selection. -/
def renamed (pattern : Option AliasPattern) (item : Item P) (selected : List (Selection P)) :
    List (Selection P) :=
  match pattern with
  | none => selected
  | some pattern =>
    if item.hasAlias then selected
    else selected.map (mapPick fun pick =>
      if pick.newName.isSome then pick
      else { pick with name := pattern.apply pick.name, newName := some (pattern.apply pick.name) })

/-! ### Bodies -/

variable (schema : Schema)

/-- The macro of an item. -/
def macroOf : Item P → List (Located P Name)
  | .bundle name _ => [name]
  | _ => []

/-- Refuses a macro that was used before. -/
def checkMacro (seen : List (Located P Name)) (name : Located P Name) : Except (Fault P) Unit :=
  match seen.find? (·.val == name.val) with
  | some first => .error (.duplicateMacro name first.pos)
  | none => .ok ()

mutual

/-- The selections of an item; `seen` holds the macros before it. -/
def ofItem (site : Site) (seen : List (Located P Name)) :
    Item P → Except (Fault P) (List (Selection P))
  | .bundle name nullability => do
    checkMacro seen name
    bundle schema site name nullability
  | .negative name =>
    if site.place = .group then .error (.notAllowed .negative name.pos site.place) else .ok []
  | .user item =>
    if site.place = .declaration then .ok []
    else .error (.notAllowed .user item.name.pos site.place)
  | .plain head => plain schema site head
  | .nested head items extent =>
    if head.recursive then .error (.recursiveWithBody head.name.val extent)
    else
      match schema.attribute? site.entity head.name.val with
      | none => .ok [leaf (plainPick site.entity head) .value]
      | some a =>
        match a.kind.target? with
        | none => .error (.nothingToSelect head.name a.kind extent)
        | some target => do
          let type := nestedTypeName head.name.val
          let inner ← bodyOf items (ofItems
            { entity := target, scopes := ⟨target, type⟩ :: site.scopes
              explicit := explicitNamesAll items, place := .nested } [] items)
          return [nested (plainPick site.entity head) target type inner]
  | .idOnly property nullability newName => idOnly schema site property nullability newName
  | .flatten property lead items _ => do
    let (a, target) ← flattened schema site property
    let inner ← bodyOf items (ofItems
      { entity := target, scopes := site.scopes, explicit := explicitNamesAll items
        place := .flatten } [] items)
    return inner.map (through ((lead.map (·.val)).getD property.val) a)
  | .group pattern items _ =>
    if site.place = .group then .error (.notAllowed .group pattern.pos site.place)
    else ofItems { site with place := .group, pattern := some pattern.val } [] items

/-- The selections of items in their order. -/
def ofItems (site : Site) (seen : List (Located P Name)) :
    List (Item P) → Except (Fault P) (List (Selection P))
  | [] => .ok []
  | item :: items => do
    let first ← ofItem site seen item
    let rest ← ofItems site (seen ++ macroOf item) items
    return renamed site.pattern item first ++ rest

end

/-- The selections of the body of a declaration. -/
def ofBody (entity type : Name) (body : Body P) : Except (Fault P) (List (Selection P)) :=
  bodyOf body.items (ofItems schema
    { entity, scopes := [⟨entity, type⟩], explicit := explicitNamesAll body.items
      place := .declaration } [] body.items)

end Selection

end Projection
