import Projection.AliasPattern
import Projection.Modifier
import Projection.Span
import Projection.TypeRef
import Projection.Value

/-!
# Sources

A source declares DTO types of one entity. Each declaration has a body of items that select
properties of the entity, and this module holds what was written, before any property is looked
up. Every part knows its position; positions are a parameter, and `Source.move` changes them all.
-/

namespace Projection

/-- A mark that decides by hand whether a property may be null. -/
inductive Nullability where
  | nullable
  | nonNull
  deriving DecidableEq, Repr

/-- The mark as it is written. -/
def Nullability.text : Nullability → String
  | nullable => "?"
  | nonNull => "!"

/-- An annotation with its arguments. An argument without a name is called `value`. -/
structure TagItem (P : Type) where
  name : Located P Name
  arguments : List (Located P Name × Located P Value)
  deriving Repr

/-- A plain selection without its body: `name*? as alias`. -/
structure Selected (P : Type) where
  name : Located P Name
  recursive : Bool
  nullability : Option (Located P Nullability)
  newName : Option (Located P Name)
  deriving Repr

/-- A property that the entity does not have: `@A name: Type = default`. -/
structure UserItem (P : Type) where
  tags : List (TagItem P)
  name : Located P Name
  type : Located P TypeRef
  default : Option (Located P Default)
  deriving Repr

/-- An item of a body. Where an item has a body of its own, `extent` is the position of that body
with its braces. -/
inductive Item (P : Type) where
  /-- `name`, with its marks -/
  | plain (head : Selected P)
  /-- `name ⟨items⟩` -/
  | nested (head : Selected P) (items : List (Item P)) (extent : P)
  /-- `#name` -/
  | bundle (name : Located P Name) (nullability : Option (Located P Nullability))
  /-- `flat(property) as lead ⟨items⟩` -/
  | flatten (property : Located P Name) (lead : Option (Located P Name)) (items : List (Item P))
    (extent : P)
  /-- `id(property) as alias` -/
  | idOnly (property : Located P Name) (nullability : Option (Located P Nullability))
    (newName : Option (Located P Name))
  /-- `-name` -/
  | negative (name : Located P Name)
  /-- `name: Type` -/
  | user (item : UserItem P)
  /-- `as(pattern) ⟨items⟩` -/
  | group (pattern : Located P AliasPattern) (items : List (Item P)) (extent : P)
  deriving Repr

/-- A body: items between braces. -/
structure Body (P : Type) where
  items : List (Item P)
  extent : P
  deriving Repr

/-- The declaration of a DTO type. -/
structure Declaration (P : Type) where
  name : Located P Name
  tags : List (TagItem P)
  modifiers : List (Located P Modifier)
  body : Body P
  deriving Repr

/-- A source: the exported entity, the modifiers that hold for all its types, and the types. -/
structure Source (P : Type) where
  entity : Located P Name
  modifiers : List (Located P Modifier)
  declarations : List (Declaration P)
  deriving Repr

namespace Item

variable {P : Type}

/-- The item gives a name of its own to what it selects. -/
def hasAlias : Item P → Bool
  | plain head => head.newName.isSome
  | nested head _ _ => head.newName.isSome
  | flatten _ lead _ _ => lead.isSome
  | idOnly _ _ newName => newName.isSome
  | bundle .. | negative _ | user _ | group .. => false

/-- The part of a text that stands for an item in a message: its name, with the alias of a plain
selection and the type of a user-defined property. -/
def span : Item Span → Span
  | plain head => selected head
  | nested head _ _ => selected head
  | bundle name _ => name.pos
  | flatten property _ _ _ => property.pos
  | idOnly property _ _ => property.pos
  | negative name => name.pos
  | user item => item.name.pos.union item.type.pos
  | group pattern _ _ => pattern.pos
where
  selected (head : Selected Span) : Span :=
    match head.newName with
    | some newName => head.name.pos.union newName.pos
    | none => head.name.pos

end Item

/-- The names of the declared types. -/
def Source.declarationNames {P : Type} (s : Source P) : List Name :=
  s.declarations.map (·.name.val)

/-! ### Positions -/

section Move

variable {P Q : Type} (f : P → Q)

/-- The annotation with its positions changed. -/
def TagItem.move (a : TagItem P) : TagItem Q where
  name := a.name.move f
  arguments := a.arguments.map fun (name, value) => (name.move f, value.move f)

/-- The selection with its positions changed. -/
def Selected.move (s : Selected P) : Selected Q where
  name := s.name.move f
  recursive := s.recursive
  nullability := s.nullability.map (·.move f)
  newName := s.newName.map (·.move f)

/-- The user-defined property with its positions changed. -/
def UserItem.move (u : UserItem P) : UserItem Q where
  tags := u.tags.map (·.move f)
  name := u.name.move f
  type := u.type.move f
  default := u.default.map (·.move f)

mutual

/-- The item with its positions changed. -/
def Item.move : Item P → Item Q
  | .plain head => .plain (head.move f)
  | .nested head items extent => .nested (head.move f) (Item.moveAll items) (f extent)
  | .bundle name nullability => .bundle (name.move f) (nullability.map (·.move f))
  | .flatten property lead items extent =>
    .flatten (property.move f) (lead.map (·.move f)) (Item.moveAll items) (f extent)
  | .idOnly property nullability newName =>
    .idOnly (property.move f) (nullability.map (·.move f)) (newName.map (·.move f))
  | .negative name => .negative (name.move f)
  | .user item => .user (item.move f)
  | .group pattern items extent => .group (pattern.move f) (Item.moveAll items) (f extent)

/-- The items with their positions changed. -/
def Item.moveAll : List (Item P) → List (Item Q)
  | [] => []
  | item :: items => item.move :: Item.moveAll items

end

theorem Item.moveAll_eq_map (items : List (Item P)) :
    Item.moveAll f items = items.map (Item.move f) := by
  induction items with
  | nil => rfl
  | cons item items ih => rw [Item.moveAll, ih, List.map_cons]

/-- The body with its positions changed. -/
def Body.move (b : Body P) : Body Q where
  items := Item.moveAll f b.items
  extent := f b.extent

/-- The declaration with its positions changed. -/
def Declaration.move (d : Declaration P) : Declaration Q where
  name := d.name.move f
  tags := d.tags.map (·.move f)
  modifiers := d.modifiers.map (·.move f)
  body := d.body.move f

/-- The source with its positions changed. -/
def Source.move (s : Source P) : Source Q where
  entity := s.entity.move f
  modifiers := s.modifiers.map (·.move f)
  declarations := s.declarations.map (·.move f)

end Move

end Projection
