import Projection.Source.Parser

/-!
# The parts of a source

`Source.parts` lists what a source writes down at a position of its own: the names, the modifiers,
the patterns and the bodies, at every depth. A part keeps its position, and to move a source is to
move its parts (`Source.parts_move`).

An item has a front and a back, from which its span is put together (`Item.span_eq`), and behind it
the body that it may have (`Item.extent?`).
-/

namespace Projection

/-- Something that a source writes down. -/
inductive Part (P : Type) where
  /-- The name of a declaration, a property or a user-defined property, or an alias -/
  | name (w : Located P Name)
  /-- A macro -/
  | bundle (w : Located P Name)
  | modifier (m : Located P Modifier)
  | pattern (p : Located P AliasPattern)
  | body (b : Body P)
  deriving Repr

variable {P Q : Type}

/-- The names of a plain selection. -/
def Selected.parts (s : Selected P) : List (Part P) :=
  .name s.name :: s.newName.toList.map .name

mutual

/-- The parts of an item. -/
def Item.parts : Item P → List (Part P)
  | .plain head => head.parts
  | .nested head items extent => head.parts ++ .body ⟨items, extent⟩ :: Item.partsAll items
  | .bundle name _ => [.bundle name]
  | .flatten property lead items extent =>
    .name property :: (lead.toList.map .name ++ .body ⟨items, extent⟩ :: Item.partsAll items)
  | .idOnly property _ newName => .name property :: newName.toList.map .name
  | .negative name => [.name name]
  | .user item => [.name item.name]
  | .group pattern items extent => .pattern pattern :: .body ⟨items, extent⟩ :: Item.partsAll items

/-- The parts of items. -/
def Item.partsAll : List (Item P) → List (Part P)
  | [] => []
  | item :: items => item.parts ++ Item.partsAll items

end

/-- A body with the parts of its items. -/
def Body.parts (b : Body P) : List (Part P) :=
  .body b :: Item.partsAll b.items

/-- The parts of a declaration. -/
def Declaration.parts (d : Declaration P) : List (Part P) :=
  .name d.name :: (d.modifiers.map .modifier ++ d.body.parts)

/-- The parts of a source. -/
def Source.parts (s : Source P) : List (Part P) :=
  s.modifiers.map .modifier ++ s.declarations.flatMap Declaration.parts

/-! ### The places of an item -/

theorem Span.union_self (s : Span) : s.union s = s := by
  simp [Span.union]

namespace Item

/-- The position of what an item starts with. -/
def front : Item P → P
  | plain head => head.name.pos
  | nested head _ _ => head.name.pos
  | bundle name _ => name.pos
  | flatten property _ _ _ => property.pos
  | idOnly property _ _ => property.pos
  | negative name => name.pos
  | user item => item.name.pos
  | group pattern _ _ => pattern.pos

/-- The position of the alias of a plain selection or of the type of a user-defined property, and
else that of the front. -/
def back : Item P → P
  | plain head => (head.newName.map (·.pos)).getD head.name.pos
  | nested head _ _ => (head.newName.map (·.pos)).getD head.name.pos
  | user item => item.type.pos
  | bundle name _ => name.pos
  | flatten property _ _ _ => property.pos
  | idOnly property _ _ => property.pos
  | negative name => name.pos
  | group pattern _ _ => pattern.pos

/-- The position of the body of an item. -/
def extent? : Item P → Option P
  | nested _ _ extent => some extent
  | flatten _ _ _ extent => some extent
  | group _ _ extent => some extent
  | plain _ | bundle .. | idOnly .. | negative _ | user _ => none

theorem span_eq (item : Item Span) : item.span = item.front.union item.back := by
  have hselected (head : Selected Span) : span.selected head =
      head.name.pos.union ((head.newName.map (·.pos)).getD head.name.pos) := by
    rw [span.selected]
    cases head.newName with
    | none => exact (Span.union_self _).symm
    | some newName => rfl
  cases item with
  | plain head => exact hselected head
  | nested head items extent => exact hselected head
  | user item => rfl
  | _ => exact (Span.union_self _).symm

end Item

/-! ### Moving parts -/

section Move

variable (f : P → Q)

/-- The part with its positions changed. -/
def Part.move : Part P → Part Q
  | name w => .name (w.move f)
  | bundle w => .bundle (w.move f)
  | modifier m => .modifier (m.move f)
  | pattern p => .pattern (p.move f)
  | body b => .body (b.move f)

theorem Selected.parts_move (s : Selected P) :
    (s.move f).parts = s.parts.map (Part.move f) := by
  cases hname : s.newName <;> simp [parts, move, Part.move, hname]

mutual

theorem Item.parts_move : ∀ item : Item P, (item.move f).parts = item.parts.map (Part.move f)
  | .plain head => by simp [Item.move, Item.parts, Selected.parts_move]
  | .nested head items extent => by
    simp [Item.move, Item.parts, Selected.parts_move, Item.partsAll_moveAll items, Part.move,
      Body.move]
  | .bundle name nullability => by simp [Item.move, Item.parts, Part.move]
  | .flatten property lead items extent => by
    cases lead <;>
      simp [Item.move, Item.parts, Item.partsAll_moveAll items, Part.move, Body.move]
  | .idOnly property nullability newName => by
    cases newName <;> simp [Item.move, Item.parts, Part.move]
  | .negative name => by simp [Item.move, Item.parts, Part.move]
  | .user item => by simp [Item.move, Item.parts, Part.move, UserItem.move]
  | .group pattern items extent => by
    simp [Item.move, Item.parts, Item.partsAll_moveAll items, Part.move, Body.move]

theorem Item.partsAll_moveAll : ∀ items : List (Item P),
    Item.partsAll (Item.moveAll f items) = (Item.partsAll items).map (Part.move f)
  | [] => rfl
  | item :: items => by
    simp [Item.moveAll, Item.partsAll, Item.parts_move item, Item.partsAll_moveAll items]

end

theorem Declaration.parts_move (d : Declaration P) :
    (d.move f).parts = d.parts.map (Part.move f) := by
  simp [Declaration.move, Declaration.parts, Body.parts, Body.move, Item.partsAll_moveAll,
    Part.move, Function.comp_def]

theorem Source.parts_move (s : Source P) : (s.move f).parts = s.parts.map (Part.move f) := by
  simp [Source.move, Source.parts, Declaration.parts_move, List.map_flatMap, List.flatMap_map,
    Part.move, Function.comp_def]

theorem Item.front_move (item : Item P) : (item.move f).front = f item.front := by
  cases item <;> rfl

theorem Item.back_move (item : Item P) : (item.move f).back = f item.back := by
  have hselected (head : Selected P) :
      ((head.move f).newName.map (·.pos)).getD (f head.name.pos) =
        f ((head.newName.map (·.pos)).getD head.name.pos) := by
    cases hname : head.newName <;> simp [Selected.move, Located.move, hname]
  cases item with
  | plain head => exact hselected head
  | nested head items extent => exact hselected head
  | _ => rfl

theorem Item.extent?_move (item : Item P) : (item.move f).extent? = item.extent?.map f := by
  cases item <;> rfl

end Move

end Projection
