import Projection.Source.Parser

/-!
# Positions that are moved

Positions are a parameter of sources and of faults in their tokens, and `move` changes them. Two
moves one after the other are one move, and a move that changes no position changes nothing.
`Source.bare` is the source without positions: what two sources have in common if they differ in
positions only.
-/

namespace Projection

variable {P Q R : Type}

/-! ### Moving twice -/

section MoveMove

variable (f : P → Q) (g : Q → R)

theorem Located.move_move {α : Type} (x : Located P α) : (x.move f).move g = x.move (g ∘ f) :=
  rfl

theorem TagItem.move_move (a : TagItem P) : (a.move f).move g = a.move (g ∘ f) := by
  simp [TagItem.move, Located.move_move, Function.comp_def]

theorem Selected.move_move (s : Selected P) : (s.move f).move g = s.move (g ∘ f) := by
  simp [Selected.move, Located.move_move, Function.comp_def]

theorem UserItem.move_move (u : UserItem P) : (u.move f).move g = u.move (g ∘ f) := by
  simp [UserItem.move, Located.move_move, TagItem.move_move, Function.comp_def]

mutual

theorem Item.move_move : ∀ item : Item P, (item.move f).move g = item.move (g ∘ f)
  | .plain head => by simp [Item.move, Selected.move_move]
  | .nested head items extent => by
    simp [Item.move, Selected.move_move, Item.moveAll_moveAll items]
  | .bundle name nullability => by simp [Item.move, Located.move_move, Function.comp_def]
  | .flatten property lead items extent => by
    simp [Item.move, Located.move_move, Item.moveAll_moveAll items, Function.comp_def]
  | .idOnly property nullability newName => by
    simp [Item.move, Located.move_move, Function.comp_def]
  | .negative name => by simp [Item.move, Located.move_move]
  | .user item => by simp [Item.move, UserItem.move_move]
  | .group pattern items extent => by
    simp [Item.move, Located.move_move, Item.moveAll_moveAll items]

theorem Item.moveAll_moveAll : ∀ items : List (Item P),
    Item.moveAll g (Item.moveAll f items) = Item.moveAll (g ∘ f) items
  | [] => rfl
  | item :: items => by
    simp [Item.moveAll, Item.move_move item, Item.moveAll_moveAll items]

end

theorem Declaration.move_move (d : Declaration P) : (d.move f).move g = d.move (g ∘ f) := by
  simp [Declaration.move, Body.move, Located.move_move, TagItem.move_move, Item.moveAll_moveAll,
    Function.comp_def]

theorem Source.move_move (s : Source P) : (s.move f).move g = s.move (g ∘ f) := by
  simp [Source.move, Located.move_move, Declaration.move_move, Function.comp_def]

theorem SyntaxFault.move_move (fault : SyntaxFault P) :
    (fault.move f).move g = fault.move (g ∘ f) := by
  induction fault with
  | within declaration fault ih => exact congrArg (within declaration) ih
  | _ => rfl

end MoveMove

/-! ### Moving nothing -/

section MoveId

theorem TagItem.move_id (a : TagItem P) : a.move id = a := by
  have harguments : (fun x : Located P Name × Located P Value => (x.1.move id, x.2.move id)) = id :=
    rfl
  simp only [TagItem.move, harguments, List.map_id]
  rfl

theorem Option.map_move_id {α : Type} (x : Option (Located P α)) : x.map (·.move id) = x := by
  cases x <;> rfl

theorem Selected.move_id (s : Selected P) : s.move id = s := by
  simp only [Selected.move, Option.map_move_id]
  rfl

theorem UserItem.move_id (u : UserItem P) : u.move id = u := by
  simp only [UserItem.move, Option.map_move_id, TagItem.move_id, List.map_id_fun']
  rfl

mutual

theorem Item.move_id : ∀ item : Item P, item.move id = item
  | .plain head => by rw [Item.move, Selected.move_id]
  | .nested head items extent => by rw [Item.move, Selected.move_id, Item.moveAll_id items]; rfl
  | .bundle name nullability => by rw [Item.move, Option.map_move_id]; rfl
  | .flatten property lead items extent => by
    rw [Item.move, Option.map_move_id, Item.moveAll_id items]
    rfl
  | .idOnly property nullability newName => by
    rw [Item.move, Option.map_move_id, Option.map_move_id]
    rfl
  | .negative name => by rw [Item.move]; rfl
  | .user item => by rw [Item.move, UserItem.move_id]
  | .group pattern items extent => by rw [Item.move, Item.moveAll_id items]; rfl

theorem Item.moveAll_id : ∀ items : List (Item P), Item.moveAll id items = items
  | [] => rfl
  | item :: items => by rw [Item.moveAll, Item.move_id item, Item.moveAll_id items]

end

theorem Declaration.move_id (d : Declaration P) : d.move id = d := by
  have hmodifiers : (fun m : Located P Modifier => m.move id) = id := rfl
  simp only [Declaration.move, Body.move, TagItem.move_id, Item.moveAll_id, hmodifiers, List.map_id,
    List.map_id_fun']
  rfl

theorem Source.move_id (s : Source P) : s.move id = s := by
  have hmodifiers : (fun m : Located P Modifier => m.move id) = id := rfl
  simp only [Source.move, Declaration.move_id, hmodifiers, List.map_id, List.map_id_fun']
  rfl

theorem SyntaxFault.move_id (fault : SyntaxFault P) : fault.move id = fault := by
  induction fault with
  | within declaration fault ih => rw [move, ih]
  | _ => rfl

end MoveId

/-- No position at all. -/
def nowhere (_ : P) : Unit :=
  ()

/-- The source without its positions. -/
def Source.bare (s : Source P) : Source Unit :=
  s.move nowhere

theorem Source.bare_move (f : P → Q) (s : Source P) : (s.move f).bare = s.bare :=
  Source.move_move f _ s

end Projection
