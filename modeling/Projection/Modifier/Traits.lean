import Projection.Fault

/-!
# Traits of a declaration

The modifiers of a source hold for all its types, those of a declaration for one. The stance of the
declaration wins over that of the source, which wins over a default; `deleted` counts at either
place; a role can only be given to a declaration.
-/

namespace Projection

/-- The modifiers of one place, each with its last position. -/
structure ModifierSet (P : Type) where
  role : Option (Located P Role) := none
  stance : Option (Located P Stance) := none
  deleted : Bool := false
  deriving Repr

namespace ModifierSet

variable {P : Type}

/-- Adds a role, which must agree with the one before. -/
def addRole (set : ModifierSet P) (role : Role) (pos : P) : Except (Fault P) (ModifierSet P) :=
  match set.role with
  | some earlier =>
    if earlier.val = role then .ok { set with role := some ⟨role, pos⟩ }
    else .error (.conflictingRoles pos earlier.pos)
  | none => .ok { set with role := some ⟨role, pos⟩ }

/-- Adds a stance, which must agree with the one before. -/
def addStance (set : ModifierSet P) (stance : Stance) (pos : P) :
    Except (Fault P) (ModifierSet P) :=
  match set.stance with
  | some earlier =>
    if earlier.val = stance then .ok { set with stance := some ⟨stance, pos⟩ }
    else .error (.conflictingStances pos earlier.pos)
  | none => .ok { set with stance := some ⟨stance, pos⟩ }

/-- Adds a modifier. -/
def add (set : ModifierSet P) (m : Located P Modifier) : Except (Fault P) (ModifierSet P) :=
  match m.val with
  | .input => set.addRole .input m.pos
  | .specification => set.addRole .specification m.pos
  | .stance s => set.addStance s m.pos
  | .deleted => .ok { set with deleted := true }

/-- The modifiers of one place, taken one by one. -/
def collect (modifiers : List (Located P Modifier)) : Except (Fault P) (ModifierSet P) :=
  modifiers.foldlM add {}

end ModifierSet

/-- What the modifiers of a source and of a declaration decide together. -/
def Traits.resolve {P : Type} (source declaration : List (Located P Modifier)) (default : Stance) :
    Except (Fault P) Traits := do
  let shared ← ModifierSet.collect source
  match shared.role with
  | some role => .error (.roleAsDefault role)
  | none =>
    let own ← ModifierSet.collect declaration
    return {
      role := (own.role.map (·.val)).getD .view
      stance := ((own.stance <|> shared.stance).map (·.val)).getD default
      includeDeleted := own.deleted || shared.deleted }

end Projection
