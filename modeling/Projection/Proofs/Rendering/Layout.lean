import Mathlib.Data.List.Forall2
import Projection.Proofs.Rendering.Imports

/-!
# The layout of a file

What a file holds is decided apart from how it is written. `Rendering.LaidOut` spells out the text
of a file: a line that names its origin, a line that brings in entities unless there are none, and
its structs one after the other, with each field on a line of its own that ends in its type. The
text of every file is laid out like this (`Rendering.laidOut`), so what is said about imports and
fields of a file is said about its text.
-/

namespace Projection

/-- The text is the name within options, boxes and vectors. -/
inductive FieldType.Wraps (name : String) : String → Prop
  | bare : Wraps name name
  | vec {text : String} : Wraps name text → Wraps name ("Vec<" ++ text ++ ">")
  | option {text : String} : Wraps name text → Wraps name ("Option<" ++ text ++ ">")
  | box {text : String} : Wraps name text → Wraps name ("Box<" ++ text ++ ">")

/-- The struct in a type, within options, boxes and vectors. -/
def FieldType.struct? : FieldType → Option String
  | struct name => some name
  | vec inner | option inner | box inner => inner.struct?
  | named _ | entity _ | map .. | generic .. => none

/-! ### The words of a type -/

namespace FieldType

theorem struct?_nullable (t : FieldType) (isNullable : Bool) :
    (t.nullable isNullable).struct? = t.struct? := by
  cases isNullable <;> rfl

theorem struct?_collection (t : FieldType) (many : Bool) :
    (t.collection many).struct? = t.struct? := by
  cases many <;> rfl

/-- A type with a struct is written with the name of the struct. -/
theorem wraps_of_struct? {name : String} : ∀ {t : FieldType}, t.struct? = some name →
    Wraps name t.text
  | struct _, rfl => .bare
  | vec _, h => .vec (wraps_of_struct? h)
  | option _, h => .option (wraps_of_struct? h)
  | box _, h => .box (wraps_of_struct? h)

theorem Wraps.nullable {name : String} {t : FieldType} (h : Wraps name t.text)
    (isNullable : Bool) : Wraps name (t.nullable isNullable).text := by
  cases isNullable with
  | false => exact h
  | true => exact h.option

theorem Wraps.collection {name : String} {t : FieldType} (h : Wraps name t.text) (many : Bool) :
    Wraps name (t.collection many).text := by
  cases many with
  | false => exact h
  | true => exact h.vec

end FieldType

namespace Rendering

/-- A field that holds an entity as a whole is written with the simple name of the entity. -/
theorem wraps_fieldOf (parent : String) (scopes : Scopes) {p : Property} {e : Name}
    (h : p.whole? = some e) :
    FieldType.Wraps (Name.simple e) (fieldOf parent scopes p).type.text := by
  refine FieldType.Wraps.nullable ?_ p.info.nullable
  cases p with
  | nested info o inner => cases h
  | leaf info target =>
    cases target with
    | value =>
      have hembedded : embeddedType info = some e := h
      rw [valueType, hembedded]
      exact .bare
    | entity name =>
      cases h
      exact FieldType.Wraps.collection (t := .entity (Name.simple e)) .bare info.many
    | idOnly idType => cases h
    | recursive type => cases h

/-! ### The lines of a file -/

/-- The line that brings in entities. -/
inductive UseLine (entityModule : String) : List String → String → Prop
  | absent : UseLine entityModule [] ""
  | one (name : String) :
      UseLine entityModule [name] ("\nuse " ++ entityModule ++ "::" ++ name ++ ";\n")
  | several (first second : String) (more : List String) :
      UseLine entityModule (first :: second :: more)
        ("\nuse " ++ entityModule ++ "::" ++ "\x7b" ++
          ", ".intercalate (first :: second :: more) ++ "\x7d" ++ ";\n")

/-- The line of a field, with a comment on a line before it if there is something to say. -/
inductive FieldLine (visibility : String) (f : Field) : String → Prop
  | plain : f.doc = none →
      FieldLine visibility f ("    " ++ visibility ++ f.name ++ ": " ++ f.type.text ++ ",\n")
  | commented {doc : String} : f.doc = some doc →
      FieldLine visibility f
        ("    /// " ++ doc ++ "\n" ++ "    " ++ visibility ++ f.name ++ ": " ++ f.type.text ++
          ",\n")

/-- The function that gives a field. -/
def reader (f : Field) : String :=
  "\n    pub fn " ++ f.name ++ "(&self) -> &" ++ f.type.text ++ " \x7b\n        &self." ++ f.name ++
    "\n    \x7d\n"

/-- The function that takes all fields. -/
def maker (fields : List Field) : String :=
  "    #[allow(clippy::too_many_arguments)]\n" ++
    "    pub fn new(" ++ ", ".intercalate (fields.map fun f => f.name ++ ": " ++ f.type.text) ++
    ") -> Self \x7b\n" ++
    "        Self \x7b " ++ ", ".intercalate (fields.map (·.name)) ++ " \x7d\n" ++
    "    \x7d\n"

/-- The declaration of a struct. -/
def declaration (s : Struct) (lines : List String) : String :=
  "\n/// " ++ roleText s.role ++ " of `" ++ s.entity ++ "`.\n" ++
    "#[derive(Debug, Clone, PartialEq)]\n" ++
    "pub struct " ++ s.name ++ " \x7b\n" ++ String.join lines ++ "\x7d\n"

/-- A struct that is mutable has public fields, any other has functions for them. -/
inductive StructBlock (s : Struct) : Bool → String → Prop
  | mutable {lines : List String} : List.Forall₂ (FieldLine "pub ") s.fields lines →
      StructBlock s true (declaration s lines)
  | immutable {lines : List String} : List.Forall₂ (FieldLine "") s.fields lines →
      StructBlock s false (declaration s lines ++ "\nimpl " ++ s.name ++ " \x7b\n" ++
        maker s.fields ++ String.join (s.fields.map reader) ++ "\x7d\n")

/-- The text of a file says what the file holds. -/
def LaidOut (file : Rendering) : Prop :=
  ∃ useLine blocks,
    file.text = "// Generated by prism from `" ++ file.source ++ "`. Do not edit.\n" ++ useLine ++
      String.join blocks ∧
    UseLine file.entityModule file.imports useLine ∧
    List.Forall₂ (StructBlock · file.mutable) file.structs blocks

theorem useLine_importText (entityModule : String) (names : List String) :
    UseLine entityModule names (importText entityModule names) := by
  match names with
  | [] => exact .absent
  | [name] => exact .one name
  | first :: second :: more =>
    have htext : importText entityModule (first :: second :: more) =
        "\nuse " ++ entityModule ++ "::" ++ "\x7b" ++
          ", ".intercalate (first :: second :: more) ++ "\x7d" ++ ";\n" := by
      simp only [importText, importList, List.isEmpty_cons, Bool.false_eq_true, if_false,
        String.append_assoc]
    rw [htext]
    exact .several first second more

theorem UseLine.eq_empty_iff {entityModule useLine : String} {names : List String}
    (h : UseLine entityModule names useLine) : useLine = "" ↔ names = [] := by
  cases h <;> simp [String.append_eq_empty_iff]

theorem fieldLine_text (visibility : String) (f : Field) :
    FieldLine visibility f (f.text visibility) := by
  cases hdoc : f.doc with
  | none =>
    have htext : f.text visibility =
        "    " ++ visibility ++ f.name ++ ": " ++ f.type.text ++ ",\n" := by
      simp only [Field.text, hdoc, Option.map_none, Option.getD_none, String.empty_append]
    rw [htext]
    exact .plain hdoc
  | some doc =>
    have htext : f.text visibility =
        "    /// " ++ doc ++ "\n" ++ "    " ++ visibility ++ f.name ++ ": " ++ f.type.text ++
          ",\n" := by
      simp only [Field.text, hdoc, Option.map_some, Option.getD_some]
    rw [htext]
    exact .commented hdoc

theorem text_true (s : Struct) :
    s.text true = declaration s (s.fields.map (Field.text "pub ")) := by
  unfold Struct.text declaration
  rw [if_pos rfl, if_pos rfl, String.append_empty]

theorem text_false (s : Struct) :
    s.text false = declaration s (s.fields.map (Field.text "")) ++ "\nimpl " ++ s.name ++
      " \x7b\n" ++ maker s.fields ++ String.join (s.fields.map reader) ++ "\x7d\n" := by
  have haccessors : s.accessors = "\nimpl " ++ s.name ++ " \x7b\n" ++ maker s.fields ++
      String.join (s.fields.map reader) ++ "\x7d\n" := by
    have hreader : Field.accessor = reader := rfl
    unfold Struct.accessors maker
    rw [hreader]
    simp only [String.append_assoc]
  unfold Struct.text declaration
  rw [if_neg (by decide), if_neg (by decide), haccessors]
  simp only [String.append_assoc]

theorem structBlock_text (s : Struct) (mutable : Bool) :
    StructBlock s mutable (s.text mutable) := by
  have hlines (visibility : String) :
      List.Forall₂ (FieldLine visibility) s.fields (s.fields.map (Field.text visibility)) := by
    rw [List.forall₂_map_right_iff, List.forall₂_same]
    exact fun f _ => fieldLine_text visibility f
  cases mutable with
  | true =>
    rw [text_true]
    exact .mutable (hlines "pub ")
  | false =>
    rw [text_false]
    exact .immutable (hlines "")

/-- **Every file is laid out as it should be.** -/
theorem laidOut (file : Rendering) : file.LaidOut := by
  refine ⟨importText file.entityModule file.imports, file.structs.map (Struct.text file.mutable),
    rfl, useLine_importText _ _, ?_⟩
  rw [List.forall₂_map_right_iff, List.forall₂_same]
  exact fun s _ => structBlock_text s file.mutable

end Rendering

end Projection
