import Projection.Dto
import Projection.Rendering.FieldType
import Projection.Text.Words

/-!
# Rendering

A DTO type is rendered as a file of structs: one for the type, and one for every type nested in it.
`Rendering.ofDto` decides what the file holds, and `Rendering.text` writes it. A mutable struct has
public fields; any other has a constructor and an accessor for each field.
-/

namespace Projection

namespace Rendering

/-- A field of a struct. -/
structure Field where
  name : String
  type : FieldType
  doc : Option String := none
  deriving Repr

/-- A struct with what it stands for. -/
structure Struct where
  name : String
  role : Role
  entity : Name
  fields : List Field
  deriving Repr

/-! ### Names -/

/-- Words that cannot name a field as they are. -/
def reserved : List String :=
  ["abstract", "as", "async", "await", "become", "box", "break", "const", "continue", "do", "dyn",
    "else", "enum", "extern", "false", "final", "fn", "for", "gen", "if", "impl", "in", "let",
    "loop", "macro", "match", "mod", "move", "mut", "override", "priv", "pub", "ref", "return",
    "static", "struct", "trait", "true", "try", "type", "typeof", "unsafe", "unsized", "use",
    "virtual", "where", "while", "yield"]

/-- The name of a field: words in lower case, and a mark on a reserved word. -/
def fieldName (name : Name) : String :=
  let snake := Text.snakeCase name
  if ["self", "super", "crate"].contains snake then snake ++ "_"
  else if reserved.contains snake then "r#" ++ snake
  else snake

/-- The name of the struct for a type nested in another. -/
def structName (parent : String) (type : Name) : String :=
  parent ++ Text.pascalCase type

/-! ### Structs -/

/-- The enclosing types with the names of their structs, the innermost first. -/
abbrev Scopes := List (Name × String)

/-- The struct of an enclosing type. -/
def Scopes.structOf (scopes : Scopes) (type : Name) : String :=
  ((scopes.find? (·.1 == type)).map (·.2)).getD type

/-- The type of the value that a property embeds. -/
def embeddedType (info : PropertyInfo) : Option Name :=
  match info.kind with
  | .scalar embedded => embedded
  | _ => none

/-- The type of a field that is not null. -/
def valueType (parent : String) (scopes : Scopes) : Property → FieldType
  | .leaf info .value =>
    match embeddedType info with
    | some embedded => .entity (Name.simple embedded)
    | none => .ofDeclared info.type
  | .leaf info (.entity name) => .collection (.entity (Name.simple name)) info.many
  | .leaf info (.idOnly idType) => .collection (.ofDeclared idType) info.many
  | .leaf info (.recursive type) =>
    let struct := FieldType.struct (scopes.structOf type)
    if info.many then .vec struct else .box struct
  | .nested info outline _ => .collection (.struct (structName parent outline.name)) info.many

/-- The field for a property. -/
def fieldOf (parent : String) (scopes : Scopes) (p : Property) : Field where
  name := fieldName p.info.name
  type := (valueType parent scopes p).nullable p.info.nullable

/-- The field for a user-defined property. -/
def userField (u : UserProperty) : Field where
  name := fieldName u.name
  type := (FieldType.ofTypeRef u.type).nullable u.nullable
  doc := u.default.map fun d => "Defaults to `" ++ d.text ++ "`."

mutual

/-- The structs for the type nested in a property. -/
def structsOf (parent : String) (scopes : Scopes) : Property → List Struct
  | .leaf .. => []
  | .nested _ outline properties =>
    let name := structName parent outline.name
    let scopes := (outline.name, name) :: scopes
    ⟨name, outline.traits.role, outline.entity, properties.map (fieldOf name scopes)⟩ ::
      structsOfAll name scopes properties

/-- The structs for the types nested in properties. -/
def structsOfAll (parent : String) (scopes : Scopes) : List Property → List Struct
  | [] => []
  | p :: ps => structsOf parent scopes p ++ structsOfAll parent scopes ps

end

/-- The structs for a type and all types nested in it. -/
def structsOfDto (d : Dto) : List Struct :=
  let scopes := [(d.name, d.name)]
  ⟨d.name, d.outline.traits.role, d.entity,
    d.properties.map (fieldOf d.name scopes) ++ d.users.map userField⟩ ::
    structsOfAll d.name scopes d.properties

/-! ### Imports -/

/-- Puts a name in its place among sorted names, once. -/
def insertSorted (name : String) : List String → List String
  | [] => [name]
  | other :: rest =>
    if name < other then name :: other :: rest
    else if name = other then other :: rest
    else other :: insertSorted name rest

mutual

/-- Adds the simple names of the entities that a property refers to, at any depth. -/
def collectImports (imports : List String) : Property → List String
  | .leaf _ (.entity name) => insertSorted (Name.simple name) imports
  | .leaf info .value =>
    match embeddedType info with
    | some embedded => insertSorted (Name.simple embedded) imports
    | none => imports
  | .leaf _ (.idOnly _) | .leaf _ (.recursive _) => imports
  | .nested _ _ properties => collectImportsAll imports properties

/-- Adds the simple names of the entities that properties refer to, at any depth. -/
def collectImportsAll (imports : List String) : List Property → List String
  | [] => imports
  | p :: ps => collectImportsAll (collectImports imports p) ps

end

end Rendering

/-- What the file for a DTO type holds. -/
structure Rendering where
  /-- The entity that the file was made from. -/
  source : Name
  entityModule : String
  imports : List String
  structs : List Rendering.Struct
  mutable : Bool
  deriving Repr

namespace Rendering

/-- The file for a DTO type. -/
def ofDto (d : Dto) (source : Name) (mutable : Bool) (entityModule : String) : Rendering where
  source := source
  entityModule := entityModule
  imports := collectImportsAll [] d.properties
  structs := structsOfDto d
  mutable := mutable

/-! ### Text -/

/-- The role of a type in a comment. -/
def roleText : Role → String
  | .view => "View"
  | .input => "Input"
  | .specification => "Specification"

/-- The names after the module in an import. -/
def importList : List String → String
  | [single] => single
  | names => "\x7b" ++ ", ".intercalate names ++ "\x7d"

/-- The import of entities, if there are any. -/
def importText (entityModule : String) (names : List String) : String :=
  if names.isEmpty then "" else "\nuse " ++ entityModule ++ "::" ++ importList names ++ ";\n"

/-- The declaration of a field. -/
def Field.text (visibility : String) (f : Field) : String :=
  (f.doc.map fun doc => "    /// " ++ doc ++ "\n").getD "" ++
    "    " ++ visibility ++ f.name ++ ": " ++ f.type.text ++ ",\n"

/-- The accessor of a field. -/
def Field.accessor (f : Field) : String :=
  "\n    pub fn " ++ f.name ++ "(&self) -> &" ++ f.type.text ++ " \x7b\n        &self." ++ f.name ++
    "\n    \x7d\n"

/-- The constructor and the accessors of a struct. -/
def Struct.accessors (s : Struct) : String :=
  "\nimpl " ++ s.name ++ " \x7b\n" ++
    "    #[allow(clippy::too_many_arguments)]\n" ++
    "    pub fn new(" ++ ", ".intercalate (s.fields.map fun f => f.name ++ ": " ++ f.type.text) ++
    ") -> Self \x7b\n" ++
    "        Self \x7b " ++ ", ".intercalate (s.fields.map (·.name)) ++ " \x7d\n" ++
    "    \x7d\n" ++
    String.join (s.fields.map Field.accessor) ++
    "\x7d\n"

/-- A struct. -/
def Struct.text (mutable : Bool) (s : Struct) : String :=
  "\n/// " ++ roleText s.role ++ " of `" ++ s.entity ++ "`.\n" ++
    "#[derive(Debug, Clone, PartialEq)]\n" ++
    "pub struct " ++ s.name ++ " \x7b\n" ++
    String.join (s.fields.map (Field.text (if mutable then "pub " else ""))) ++
    "\x7d\n" ++
    (if mutable then "" else s.accessors)

/-- The file. -/
def text (r : Rendering) : String :=
  "// Generated by prism from `" ++ r.source ++ "`. Do not edit.\n" ++
    importText r.entityModule r.imports ++
    String.join (r.structs.map (Struct.text r.mutable))

/-- The name of the file for a DTO type. -/
def fileName (d : Dto) : String :=
  Text.snakeCase d.name ++ ".rs"

end Rendering

end Projection
