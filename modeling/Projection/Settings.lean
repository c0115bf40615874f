import Projection.Document
import Projection.Dto.Compile
import Projection.Schema.Policy

/-!
# Settings

The settings of a run: defaults of compilation, where the sources are, which entities are compiled,
and where the output goes. Every setting has a default, so an empty document is a complete
configuration.
-/

namespace Projection

/-- The settings of a run. -/
structure Settings where
  defaults : Defaults := {}
  /-- The directories that are searched for sources. -/
  sourceDirs : List String := ["src/main/dto"]
  /-- The extension of sources, without the dot. -/
  extension : String := "dto"
  policy : Policy := {}
  /-- The directory of the output. -/
  directory : String := "generated"
  /-- The module that the output takes entities from. -/
  entityModule : String := "crate::entities"
  deriving DecidableEq, Repr

namespace Settings

/-- Reads the section on compilation and sources. -/
def withCompiler (s : Settings) (d : Document) : Option Settings := do
  let fields ← d.fields? ["mutable", "default_nullable_input", "dto_dirs", "extension"]
  return { s with
    defaults := {
      mutable := ← fields.withDefault Document.boolean? "mutable" s.defaults.mutable
      stance := ← fields.withDefault (fun d => d.word?.bind Stance.ofWord?) "default_nullable_input"
        s.defaults.stance }
    sourceDirs := ← fields.withDefault (Document.listOf? Document.text?) "dto_dirs" s.sourceDirs
    extension := ← fields.withDefault Document.text? "extension" s.extension }

/-- Reads the section on entities. -/
def withSchema (s : Settings) (d : Document) : Option Settings := do
  let fields ← d.fields? ["include", "exclude"]
  return { s with
    policy := {
      included := ← fields.withDefault (Document.listOf? Document.text?) "include" s.policy.included
      excluded :=
        ← fields.withDefault (Document.listOf? Document.text?) "exclude" s.policy.excluded } }

/-- Reads the section on the output. -/
def withOutput (s : Settings) (d : Document) : Option Settings := do
  let fields ← d.fields? ["directory", "entity_module"]
  return { s with
    directory := ← fields.withDefault Document.text? "directory" s.directory
    entityModule := ← fields.withDefault Document.text? "entity_module" s.entityModule }

/-- Reads settings from a document. Sections and fields that are left out keep their defaults. -/
def ofDocument? (d : Document) : Option Settings := do
  let fields ← d.fields? ["compiler", "schema", "output"]
  let s : Settings := {}
  let s ← fields.withDefault s.withCompiler "compiler" s
  let s ← fields.withDefault s.withSchema "schema" s
  fields.withDefault s.withOutput "output" s

end Settings

end Projection
