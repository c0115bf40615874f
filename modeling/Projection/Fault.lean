import Projection.Diagnostic
import Projection.Modifier
import Projection.Schema.Basic
import Projection.Source

/-!
# Faults of a declaration

Everything that compilation can refuse, as causes. The wording of a cause and the parts of the
source that it points to are here and nowhere else; neither depends on where those parts are.
-/

namespace Projection

/-- Where a body stands. -/
inductive Place where
  | declaration
  | nested
  | flatten
  | group
  deriving DecidableEq, Repr

/-- The place in words. -/
def Place.text : Place → String
  | declaration => "a declaration body"
  | nested => "a nested selection"
  | flatten => "a `flat(..)` body"
  | group => "an alias group"

/-- An item that may not stand in every body. -/
inductive Misplaced where
  | negative
  | user
  | group
  deriving DecidableEq, Repr

namespace Misplaced

/-- The item in words. -/
def text : Misplaced → String
  | negative => "a negative property"
  | user => "a user-defined property"
  | group => "an alias group"

/-- Where to put the item instead. -/
def help : Misplaced → String
  | negative => "write the negative property next to the alias group"
  | user => "declare user-defined properties directly in the DTO type body"
  | group => "alias groups do not nest"

end Misplaced

/-- A way to select that not every attribute allows. -/
inductive Usage where
  | recursion
  | flatten
  | idOnly
  deriving DecidableEq, Repr

namespace Usage

/-- The way in words. -/
def text : Usage → String
  | recursion => "recursive selection"
  | flatten => "flatten"
  | idOnly => "id-only selection"

/-- The attribute that it takes. -/
def requirement : Usage → String
  | recursion => "recursion requires an association"
  | flatten => "flattening requires a single-valued association or an embedded value"
  | idOnly => "id-only selection requires an association"

end Usage

/-- Why an attribute does not allow a way to select. -/
inductive Obstacle where
  | unknown (entity : Name)
  | kind (k : Kind)
  | toMany
  /-- No enclosing type is of the target, whether or not the target leads back to the entity. -/
  | notEnclosing (property target entity : Name) (leadsBack : Bool)
  | targetWithoutId
  deriving DecidableEq, Repr

namespace Obstacle

/-- The obstacle in words. -/
def label : Obstacle → String
  | unknown entity => "`" ++ entity ++ "` has no such property"
  | kind k => k.text ++ " property"
  | toMany => "to-many association"
  | notEnclosing _ target entity true =>
    "`" ++ target ++ "` leads back to `" ++ entity ++ "`, but no enclosing DTO type is of `" ++
      target ++ "`"
  | notEnclosing _ target entity false =>
    "`" ++ target ++ "` never leads back to `" ++ entity ++ "`"
  | targetWithoutId => "target has no id property"

/-- What would be needed, where there is something to say. -/
def help (usage : Usage) : Obstacle → Option String
  | unknown _ | targetWithoutId => none
  | kind _ | toMany => some usage.requirement
  | notEnclosing property _ _ _ =>
    some ("`" ++ property ++ "*` is only allowed on a self-referencing association")

end Obstacle

/-- What can be wrong with a declaration. -/
inductive Fault (P : Type) where
  | unknownEntity (entity : Located P Name)
  | duplicateType (name : Located P Name) (first : P)
  | duplicateNegative (name : Located P Name) (first : P)
  | idleNegative (name : Located P Name)
  | duplicateMacro (name : Located P Name) (first : P)
  | unknownMacro (name : Located P Name)
  | notAllowed (item : Misplaced) (pos : P) (place : Place)
  | recursiveWithBody (property : Name) (body : P)
  | nothingToSelect (property : Located P Name) (kind : Kind) (body : P)
  | ineligible (usage : Usage) (property : Located P Name) (obstacle : Obstacle)
  | selectedTwice (source : Located P Name) (first : P)
  | unknownProperty (entity : Name) (source : Located P Name) (available : List Name)
  | deletedSelected (entity : Name) (property : Located P Name)
  | missingDependency (entity : Name) (property : Located P Name) (dependency : Name)
  | nonNullOutsideInput (mark : P)
  | conflictingRoles (later earlier : P)
  | conflictingStances (later earlier : P)
  | roleAsDefault (role : Located P Role)
  | invalidMutability (value : Located P Value)
  | duplicateOutput (type : Name) (name : Located P Name) (first : P)
  | duplicateUser (type : Name) (name : Located P Name) (first : P)
  | missingDefault (name : Name) (type : Located P TypeRef)
  | invalidDefault (name : Name) (type : Located P TypeRef) (value : Located P Default)
  /-- A fault in the declaration of the named type. -/
  | within (declaration : Name) (fault : Fault P)
  deriving Repr

namespace Fault

variable {P Q : Type}

/-- The code of a fault. -/
def code : Fault P → Code
  | unknownEntity _ => .unknownEntity
  | duplicateType .. => .duplicateType
  | duplicateNegative .. => .duplicateNegative
  | idleNegative _ => .idleNegative
  | duplicateMacro .. => .duplicateMacro
  | unknownMacro _ => .unknownMacro
  | notAllowed .. => .itemNotAllowed
  | recursiveWithBody .. | nothingToSelect .. => .nestedNotAllowed
  | ineligible .. => .ineligibleTarget
  | selectedTwice .. | duplicateOutput .. | duplicateUser .. => .duplicateProperty
  | unknownProperty .. => .unresolvedProperty
  | deletedSelected .. => .deletedSelected
  | missingDependency .. => .unresolvedDependency
  | nonNullOutsideInput _ => .nonNullOutsideInput
  | conflictingRoles .. | conflictingStances .. | roleAsDefault _ => .conflictingModifiers
  | invalidMutability _ => .invalidMutability
  | missingDefault .. | invalidDefault .. => .invalidUserProperty
  | within _ fault => fault.code

/-- The fault in words. -/
def message : Fault P → String
  | unknownEntity entity => "unknown entity `" ++ entity.val ++ "`"
  | duplicateType name _ => "DTO type `" ++ name.val ++ "` is declared more than once"
  | duplicateNegative name _ =>
    "negative property `-" ++ name.val ++ "` is written more than once"
  | idleNegative name => "negative property `-" ++ name.val ++ "` removes nothing"
  | duplicateMacro name _ => "macro `#" ++ name.val ++ "` is used more than once"
  | unknownMacro name => "unknown macro `#" ++ name.val ++ "`"
  | notAllowed item _ place => item.text ++ " is not allowed in " ++ place.text
  | recursiveWithBody property _ =>
    "recursive property `" ++ property ++ "` cannot have a selection body"
  | nothingToSelect property _ _ =>
    "property `" ++ property.val ++ "` has no properties to select from"
  | ineligible usage property _ => usage.text ++ " cannot be applied to `" ++ property.val ++ "`"
  | selectedTwice source _ => "property `" ++ source.val ++ "` is selected more than once"
  | unknownProperty entity source _ =>
    "`" ++ entity ++ "` has no property `" ++ source.val ++ "`"
  | deletedSelected entity property =>
    "`" ++ property.val ++ "` is the logically-deleted marker of `" ++ entity ++ "`"
  | missingDependency entity property dependency =>
    "computed property `" ++ property.val ++ "` depends on `" ++ dependency ++ "`, which `" ++
      entity ++ "` does not declare"
  | nonNullOutsideInput _ => "`!` is only allowed in input DTOs"
  | conflictingRoles .. | conflictingStances .. => "conflicting modifiers"
  | roleAsDefault role => "`" ++ role.val.text ++ "` cannot be a file default"
  | invalidMutability value => "invalid `immutability` value `" ++ value.val.text ++ "`"
  | duplicateOutput type name _ | duplicateUser type name _ =>
    "duplicate property `" ++ name.val ++ "` in `" ++ type ++ "`"
  | missingDefault name type =>
    "non-null property `" ++ name ++ "` of type `" ++ type.val.text ++ "` needs a default value"
  | invalidDefault name type value =>
    "`" ++ value.val.text ++ "` is not a valid default of `" ++ name ++ ": " ++ type.val.text ++ "`"
  | within declaration fault => fault.message ++ " in declaration `" ++ declaration ++ "`"

/-- What a fault points to: the place of the fault itself with a remark, and the place that it has
to do with, if there is one. -/
def marks : Fault P → Located P String × Option (Located P String)
  | unknownEntity entity => (⟨"not found in the schema", entity.pos⟩, none)
  | duplicateType name first =>
    (⟨"declared again", name.pos⟩, some ⟨"first declared here", first⟩)
  | duplicateNegative name first =>
    (⟨"duplicate negative property", name.pos⟩, some ⟨"first written here", first⟩)
  | idleNegative name => (⟨"this body outputs no property of that name", name.pos⟩, none)
  | duplicateMacro name first => (⟨"duplicate macro", name.pos⟩, some ⟨"first used here", first⟩)
  | unknownMacro name => (⟨"unknown macro", name.pos⟩, none)
  | notAllowed _ pos _ => (⟨"not allowed here", pos⟩, none)
  | recursiveWithBody _ body => (⟨"unexpected selection", body⟩, none)
  | nothingToSelect property kind body =>
    (⟨"unexpected selection", body⟩, some ⟨kind.text ++ " property", property.pos⟩)
  | ineligible _ property obstacle => (⟨obstacle.label, property.pos⟩, none)
  | selectedTwice source first =>
    (⟨"selected again", source.pos⟩, some ⟨"first selected here", first⟩)
  | unknownProperty _ source _ => (⟨"unknown property", source.pos⟩, none)
  | deletedSelected _ property => (⟨"logically-deleted marker", property.pos⟩, none)
  | missingDependency _ property _ => (⟨"computed property", property.pos⟩, none)
  | nonNullOutsideInput mark => (⟨"non-null override", mark⟩, none)
  | conflictingRoles later earlier | conflictingStances later earlier =>
    (⟨"conflicts with an earlier modifier", later⟩, some ⟨"earlier modifier", earlier⟩)
  | roleAsDefault role => (⟨"only allowed on a declaration", role.pos⟩, none)
  | invalidMutability value => (⟨"expected an enum constant", value.pos⟩, none)
  | duplicateOutput _ name first =>
    (⟨"produces the same name again", name.pos⟩, some ⟨"first produced here", first⟩)
  | duplicateUser _ name first =>
    (⟨"declared again", name.pos⟩, some ⟨"first produced here", first⟩)
  | missingDefault _ type => (⟨"type without an implicit default", type.pos⟩, none)
  | invalidDefault _ type value =>
    (⟨"invalid default", value.pos⟩, some ⟨"declared type", type.pos⟩)
  | within _ fault => fault.marks

/-- How to mend a fault, where there is something to say. -/
def help : Fault P → Option String
  | unknownEntity _ | duplicateType .. | duplicateNegative .. | duplicateMacro .. |
    selectedTwice .. | missingDependency .. => none
  | idleNegative _ =>
    some "a negative property names an output of the same body, such as `-departmentId`"
  | unknownMacro _ => some "expected `#allScalars` or `#allReferences`"
  | notAllowed item _ _ => some item.help
  | recursiveWithBody .. => some "a recursive property reuses the enclosing DTO type"
  | nothingToSelect .. => some "only associations and embedded values take a selection body"
  | ineligible usage _ obstacle => obstacle.help usage
  | unknownProperty _ _ available =>
    if available.isEmpty then none
    else some ("available properties: " ++ ", ".intercalate available)
  | deletedSelected .. => some "add the `deleted` modifier to select it"
  | nonNullOutsideInput _ => some "add the `input` modifier, or remove the `!`"
  | conflictingRoles .. => some "a DTO type is either `input` or `specification`"
  | conflictingStances .. =>
    some "name at most one of `fixed`, `static`, `dynamic` and `fuzzy`"
  | roleAsDefault _ => some "write the modifier before the DTO type name instead"
  | invalidMutability _ => some "use `MUTABLE` or `IMMUTABLE`"
  | duplicateOutput .. => some "rename one of them with `as`"
  | duplicateUser .. => some "rename the user-defined property"
  | missingDefault .. => some "add `= <value>`, or make the type nullable with `?`"
  | invalidDefault _ _ value =>
    match value.val with
    | .null => some "make the type nullable with `?`"
    | .literal _ => some "only boolean, numeric and string properties take a non-null default"
  | within _ fault => fault.help

/-- The fault as a diagnostic. -/
def diagnostic (fault : Fault Span) : Diagnostic where
  code := some fault.code
  message := fault.message
  labels :=
    let (main, other) := fault.marks
    ⟨main.pos, main.val, true⟩ :: (other.map fun o => ⟨o.pos, o.val, false⟩).toList
  help := fault.help

end Fault

end Projection
