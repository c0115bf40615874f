import Projection.Proofs.Token.Spelling
import Projection.Source

/-!
# How sources are written

Every part of a source has a canonical row of tokens, and a source has one line for the exported
entity, one for the modifiers that all its types share, if there are any, and one for each
declaration. `Source.render` lays these lines out as a text.

Not everything that a `Source` can hold can be written down. `Source.isWritable` says what can: the
names are identifiers, or such with dots between them where a qualified name may stand, the numbers
are whole and fit in 63 bits, and each alias pattern is one that can be told from another by its
text. Nothing else is asked, so this can be checked for a given source.
-/

namespace Projection

variable {P : Type}

/-- Rows of tokens with commas between them. -/
def Token.separated (rows : List (List Token)) : List Token :=
  [Token.symbol .comma].intercalate rows

/-! ### Names, values and types -/

namespace Name

/-- The parts of a name between its dots. -/
def segments (name : Name) : List Name :=
  (name.toList.splitOn '.').map String.ofList

def tokens (name : Name) : List Token :=
  [Token.symbol .dot].intercalate ((segments name).map fun segment => [.word segment])

/-- The name is made of identifiers with dots between them. -/
def isQualified (name : Name) : Bool :=
  (segments name).all Token.isIdentifier

end Name

namespace Literal

def tokens : Literal → List Token
  | boolean value => [.word (if value then "true" else "false")]
  | integer value =>
    if value < 0 then [.symbol .minus, .integer value.natAbs] else [.integer value.natAbs]
  | decimal value => [.decimal value]
  | quoted value => [.quoted value]

def isWritable : Literal → Bool
  | integer value => decide (value.natAbs < Nat.pow 2 63)
  | decimal _ => false
  | boolean _ | quoted _ => true

end Literal

mutual

def Value.tokens : Value → List Token
  | .literal l => l.tokens
  | .constant name => Name.tokens name
  | .list values =>
    .symbol .leftBracket :: (Token.separated (Value.rows values) ++ [Token.symbol .rightBracket])

def Value.rows : List Value → List (List Token)
  | [] => []
  | v :: values => v.tokens :: Value.rows values

end

mutual

/-- A constant that starts like a truth value would be read as one. -/
def Value.isWritable : Value → Bool
  | .literal l => l.isWritable
  | .constant name => Name.isQualified name &&
      !(["true", "false"].contains ((Name.segments name).headD ""))
  | .list values => Value.allWritable values

def Value.allWritable : List Value → Bool
  | [] => true
  | v :: values => v.isWritable && Value.allWritable values

end

mutual

def TypeRef.tokens : TypeRef → List Token
  | ⟨name, arguments, nullable⟩ =>
    Name.tokens name ++
      ((if arguments.isEmpty then []
        else Token.symbol .less ::
          (Token.separated (TypeRef.rows arguments) ++ [Token.symbol .greater])) ++
        if nullable then [Token.symbol .question] else [])

def TypeRef.rows : List TypeRef → List (List Token)
  | [] => []
  | type :: types => type.tokens :: TypeRef.rows types

end

mutual

def TypeRef.isWritable : TypeRef → Bool
  | ⟨name, arguments, _⟩ => Name.isQualified name && TypeRef.allWritable arguments

def TypeRef.allWritable : List TypeRef → Bool
  | [] => true
  | type :: types => type.isWritable && TypeRef.allWritable types

end

namespace Default

def tokens : Default → List Token
  | null => [.word "null"]
  | literal l => l.tokens

def isWritable : Default → Bool
  | null => true
  | literal l => l.isWritable

end Default

/-! ### Parts of items -/

namespace TagItem

/-- An argument is written with its name. -/
def argumentTokens (argument : Located P Name × Located P Value) : List Token :=
  .word argument.1.val :: .symbol .equals :: argument.2.val.tokens

def tokens (tag : TagItem P) : List Token :=
  .symbol .atSign :: (Name.tokens tag.name.val ++
    if tag.arguments.isEmpty then []
    else Token.symbol .leftParen ::
      (Token.separated (tag.arguments.map argumentTokens) ++ [Token.symbol .rightParen]))

def isWritable (tag : TagItem P) : Bool :=
  Name.isQualified tag.name.val &&
    tag.arguments.all fun a => Token.isIdentifier a.1.val && a.2.val.isWritable

end TagItem

/-- The token for a mark. -/
def Nullability.symbol : Nullability → Symbol
  | nullable => .question
  | nonNull => .bang

/-- A mark, if there is one. -/
def Nullability.tokens (mark : Option (Located P Nullability)) : List Token :=
  (mark.map fun m => Token.symbol m.val.symbol).toList

/-- `as` with an alias, if there is one. -/
def Name.aliasTokens (newName : Option (Located P Name)) : List Token :=
  match newName with
  | some name => [.keyword .asWord, .word name.val]
  | none => []

/-- A name of one identifier, if there is one. -/
def Name.isAlias (newName : Option (Located P Name)) : Bool :=
  newName.all fun name => Token.isIdentifier name.val

namespace Selected

/-- What stands after the name. -/
def markTokens (head : Selected P) : List Token :=
  (if head.recursive then [Token.symbol .star] else []) ++
    (Nullability.tokens head.nullability ++ Name.aliasTokens head.newName)

def tokens (head : Selected P) : List Token :=
  .word head.name.val :: head.markTokens

def isWritable (head : Selected P) : Bool :=
  Token.isIdentifier head.name.val && Name.isAlias head.newName

end Selected

namespace UserItem

/-- What stands after the name. -/
def typeTokens (item : UserItem P) : List Token :=
  .symbol .colon :: (item.type.val.tokens ++
    match item.default with
    | some value => Token.symbol .equals :: value.val.tokens
    | none => [])

def tokens (item : UserItem P) : List Token :=
  item.tags.flatMap TagItem.tokens ++ Token.word item.name.val :: item.typeTokens

def isWritable (item : UserItem P) : Bool :=
  item.tags.all TagItem.isWritable && Token.isIdentifier item.name.val &&
    item.type.val.isWritable && item.default.all (·.val.isWritable)

end UserItem

namespace AliasPattern

/-- A word, unless it is empty. -/
def wordTokens (name : String) : List Token :=
  if name.isEmpty then [] else [.word name]

/-- The text that is looked for, with its anchor at the end. -/
def written (p : AliasPattern) : String :=
  if p.atEnd then p.sought ++ "$" else p.sought

def tokens (p : AliasPattern) : List Token :=
  .keyword .asWord :: .symbol .leftParen :: ((if p.atStart then [Token.symbol .caret] else []) ++
    (wordTokens p.written ++ Token.symbol .arrow :: (wordTokens p.replacement ++
      [Token.symbol .rightParen])))

/-- Something is looked for: a text or one of the two ends. Only a text at one of the ends may be
replaced by nothing, and a text that does not end the name does not end in `$` either. -/
def isWritable (p : AliasPattern) : Bool :=
  (p.sought.isEmpty || Token.isIdentifier p.sought) &&
    (p.replacement.isEmpty || Token.isIdentifier p.replacement) &&
    !(p.sought.isEmpty && p.atStart == p.atEnd) &&
    !(p.replacement.isEmpty && (p.sought.isEmpty || p.atStart == p.atEnd)) &&
    (p.atEnd || p.sought.toList.getLast? != some '$')

end AliasPattern

/-! ### Items and declarations -/

/-- A body with these items. -/
def Token.braced (rows : List (List Token)) : List Token :=
  .symbol .leftBrace :: (Token.separated rows ++ [Token.symbol .rightBrace])

mutual

def Item.tokens : Item P → List Token
  | .plain head => head.tokens
  | .nested head items _ => head.tokens ++ Token.braced (Item.rows items)
  | .bundle name nullability =>
    .symbol .hash :: .word name.val :: Nullability.tokens nullability
  | .flatten property lead items _ =>
    .word "flat" :: .symbol .leftParen :: .word property.val :: .symbol .rightParen ::
      (Name.aliasTokens lead ++ Token.braced (Item.rows items))
  | .idOnly property nullability newName =>
    .word "id" :: .symbol .leftParen :: .word property.val :: .symbol .rightParen ::
      (Nullability.tokens nullability ++ Name.aliasTokens newName)
  | .negative name => [.symbol .minus, .word name.val]
  | .user item => item.tokens
  | .group pattern items _ => pattern.val.tokens ++ Token.braced (Item.rows items)

def Item.rows : List (Item P) → List (List Token)
  | [] => []
  | item :: items => item.tokens :: Item.rows items

end

mutual

def Item.isWritable : Item P → Bool
  | .plain head => head.isWritable
  | .nested head items _ => head.isWritable && Item.allWritable items
  | .bundle name _ => Token.isIdentifier name.val
  | .flatten property lead items _ =>
    Token.isIdentifier property.val && Name.isAlias lead && Item.allWritable items
  | .idOnly property _ newName => Token.isIdentifier property.val && Name.isAlias newName
  | .negative name => Token.isIdentifier name.val
  | .user item => item.isWritable
  | .group pattern items _ => pattern.val.isWritable && Item.allWritable items

def Item.allWritable : List (Item P) → Bool
  | [] => true
  | item :: items => item.isWritable && Item.allWritable items

end

namespace Declaration

def tokens (d : Declaration P) : List Token :=
  d.tags.flatMap TagItem.tokens ++ (d.modifiers.map (fun m => Token.word m.val.text) ++
    Token.word d.name.val :: Token.braced (Item.rows d.body.items))

def isWritable (d : Declaration P) : Bool :=
  d.tags.all TagItem.isWritable && Token.isIdentifier d.name.val &&
    Item.allWritable d.body.items

end Declaration

namespace Source

/-- `export name;` -/
def exportTokens (entity : Name) : List Token :=
  .keyword .exportWord :: (Name.tokens entity ++ [Token.symbol .semicolon])

/-- `default modifier, modifier;` -/
def defaultTokens (modifiers : List (Located P Modifier)) : List Token :=
  .word "default" :: (Token.separated (modifiers.map fun m => [Token.word m.val.text]) ++
    [Token.symbol .semicolon])

/-- The lines of a source: the exported entity, the modifiers of all its types, and its types. -/
def lines (s : Source P) : List (List Token) :=
  exportTokens s.entity.val :: ((if s.modifiers.isEmpty then [] else [defaultTokens s.modifiers]) ++
    s.declarations.map Declaration.tokens)

/-- The source can be written down. -/
def isWritable (s : Source P) : Bool :=
  Name.isQualified s.entity.val && s.declarations.all Declaration.isWritable

/-- The source as a text. -/
def render (s : Source P) : String :=
  String.ofList (Token.layoutLines s.lines)

end Source

/-! ### Everything that is written has a spelling -/

namespace Token

theorem all_separated (rows : List (List Token)) :
    (separated rows).all isSpellable = rows.all (·.all isSpellable) :=
  List.all_intercalate rfl rows

theorem all_braced (rows : List (List Token)) :
    (braced rows).all isSpellable = rows.all (·.all isSpellable) := by
  simp [braced, all_separated, isSpellable]

end Token

open Token

theorem Name.all_tokens (name : Name) : (Name.tokens name).all isSpellable = isQualified name := by
  rw [tokens, List.all_intercalate rfl, List.all_map, isQualified]
  congr 1
  funext segment
  simp [isSpellable]

theorem Literal.all_tokens {l : Literal} (h : l.isWritable = true) :
    l.tokens.all isSpellable = true := by
  cases l with
  | boolean value => cases value <;> decide
  | integer value =>
    rw [isWritable] at h
    by_cases hneg : value < 0 <;> simpa [tokens, hneg, isSpellable] using h
  | decimal value => cases h
  | quoted value => rfl

mutual

theorem Value.all_tokens : ∀ v : Value, v.isWritable = true → v.tokens.all isSpellable = true
  | .literal l, h => Literal.all_tokens h
  | .constant name, h => by
    rw [Value.isWritable, Bool.and_eq_true] at h
    rw [Value.tokens, Name.all_tokens, h.1]
  | .list values, h => by
    rw [Value.isWritable] at h
    simp [Value.tokens, all_separated, isSpellable, Value.all_rows values h]

theorem Value.all_rows : ∀ values : List Value, Value.allWritable values = true →
    (Value.rows values).all (·.all isSpellable) = true
  | [], _ => rfl
  | v :: values, h => by
    rw [Value.allWritable, Bool.and_eq_true] at h
    rw [Value.rows, List.all_cons, Value.all_tokens v h.1, Value.all_rows values h.2]
    rfl

end

mutual

theorem TypeRef.all_tokens : ∀ type : TypeRef, type.isWritable = true →
    type.tokens.all isSpellable = true
  | ⟨name, arguments, nullable⟩, h => by
    rw [TypeRef.isWritable, Bool.and_eq_true] at h
    have hmark : (if nullable then [Token.symbol .question] else []).all isSpellable = true := by
      cases nullable <;> rfl
    rw [TypeRef.tokens, List.all_append, List.all_append, Name.all_tokens, h.1, hmark]
    cases harguments : arguments.isEmpty with
    | true => rfl
    | false =>
      simp [all_separated, isSpellable, TypeRef.all_rows arguments h.2]

theorem TypeRef.all_rows : ∀ types : List TypeRef, TypeRef.allWritable types = true →
    (TypeRef.rows types).all (·.all isSpellable) = true
  | [], _ => rfl
  | type :: types, h => by
    rw [TypeRef.allWritable, Bool.and_eq_true] at h
    rw [TypeRef.rows, List.all_cons, TypeRef.all_tokens type h.1, TypeRef.all_rows types h.2]
    rfl

end

theorem Default.all_tokens {d : Default} (h : d.isWritable = true) :
    d.tokens.all isSpellable = true := by
  cases d with
  | null => decide
  | literal l => exact Literal.all_tokens h

theorem TagItem.all_tokens {tag : TagItem P} (h : tag.isWritable = true) :
    tag.tokens.all isSpellable = true := by
  rw [isWritable, Bool.and_eq_true, List.all_eq_true] at h
  obtain ⟨hname, harguments⟩ := h
  have hrows : (tag.arguments.map argumentTokens).all (·.all isSpellable) = true := by
    rw [List.all_map, List.all_eq_true]
    intro a ha
    have hargument := harguments a ha
    rw [Bool.and_eq_true] at hargument
    simp [argumentTokens, isSpellable, hargument.1, Value.all_tokens a.2.val hargument.2]
  have hlist : (if tag.arguments.isEmpty then []
      else Token.symbol .leftParen :: (Token.separated (tag.arguments.map argumentTokens) ++
        [Token.symbol .rightParen])).all isSpellable = true := by
    split
    · rfl
    · rw [List.all_cons, List.all_append, all_separated, hrows]
      rfl
  rw [tokens, List.all_cons, List.all_append, Name.all_tokens, hname, hlist]
  rfl

theorem TagItem.all_flatMap {tags : List (TagItem P)} (h : tags.all TagItem.isWritable = true) :
    (tags.flatMap TagItem.tokens).all isSpellable = true := by
  rw [List.all_flatMap, List.all_eq_true]
  intro tag htag
  exact TagItem.all_tokens (List.all_eq_true.mp h tag htag)

theorem Nullability.all_tokens (mark : Option (Located P Nullability)) :
    (Nullability.tokens mark).all isSpellable = true := by
  cases mark <;> rfl

theorem Name.all_aliasTokens {newName : Option (Located P Name)}
    (h : Name.isAlias newName = true) : (Name.aliasTokens newName).all isSpellable = true := by
  cases newName with
  | none => rfl
  | some name => simpa [aliasTokens, isSpellable, isAlias] using h

theorem Selected.all_tokens {head : Selected P} (h : head.isWritable = true) :
    head.tokens.all isSpellable = true := by
  rw [isWritable, Bool.and_eq_true] at h
  have hstar : (if head.recursive then [Token.symbol .star] else []).all isSpellable = true := by
    cases head.recursive <;> rfl
  rw [tokens, List.all_cons, markTokens, List.all_append, List.all_append, hstar,
    Nullability.all_tokens, Name.all_aliasTokens h.2, isSpellable, h.1]
  rfl

theorem UserItem.all_tokens {item : UserItem P} (h : item.isWritable = true) :
    item.tokens.all isSpellable = true := by
  simp only [isWritable, Bool.and_eq_true] at h
  obtain ⟨⟨⟨htags, hname⟩, htype⟩, hdefault⟩ := h
  rw [tokens, List.all_append, TagItem.all_flatMap htags, List.all_cons, typeTokens,
    List.all_cons, List.all_append, TypeRef.all_tokens item.type.val htype]
  cases hvalue : item.default with
  | none => simp [isSpellable, hname]
  | some value =>
    rw [hvalue] at hdefault
    simp [isSpellable, hname, Default.all_tokens hdefault]

namespace AliasPattern

/-- An anchor after a text makes an identifier of both. -/
theorem isIdentifier_anchored {name : String} (h : (name.isEmpty || isIdentifier name) = true) :
    isIdentifier (name ++ "$") = true := by
  have hlast : (name ++ "$").toList.getLast? = some '$' := by simp
  have hne {word : String} (hword : word.toList.getLast? ≠ some '$') : name ++ "$" ≠ word := by
    rintro rfl
    exact hword hlast
  have hexport : name ++ "$" ≠ Keyword.exportWord.text := hne (by decide)
  have has : name ++ "$" ≠ Keyword.asWord.text := hne (by decide)
  rw [Bool.or_eq_true] at h
  obtain hempty | hname := h
  · obtain rfl : name = "" := by simpa using hempty
    decide
  · simp only [isIdentifier, Bool.and_eq_true] at hname
    obtain ⟨⟨⟨hall, hhead⟩, _⟩, _⟩ := hname
    cases hchars : name.toList with
    | nil => simp [hchars] at hhead
    | cons c cs =>
      rw [hchars] at hall hhead
      have hdollar : isWordChar '$' = true := by decide
      simp_all [isIdentifier]

theorem all_wordTokens {name : String} (h : (name.isEmpty || isIdentifier name) = true) :
    (wordTokens name).all isSpellable = true := by
  unfold wordTokens
  split
  · rfl
  · simp_all [isSpellable]

theorem all_tokens {p : AliasPattern} (h : p.isWritable = true) :
    p.tokens.all isSpellable = true := by
  simp only [isWritable, Bool.and_eq_true] at h
  obtain ⟨⟨⟨⟨hsought, hreplacement⟩, _⟩, _⟩, _⟩ := h
  have hcaret : (if p.atStart then [Token.symbol .caret] else []).all isSpellable = true := by
    cases p.atStart <;> rfl
  have hwritten : (p.written.isEmpty || isIdentifier p.written) = true := by
    unfold written
    split
    · rw [isIdentifier_anchored hsought, Bool.or_true]
    · exact hsought
  rw [tokens, List.all_cons, List.all_cons, List.all_append, hcaret, List.all_append,
    all_wordTokens hwritten, List.all_cons, List.all_append, all_wordTokens hreplacement]
  rfl

end AliasPattern

mutual

theorem Item.all_tokens : ∀ item : Item P, item.isWritable = true →
    item.tokens.all isSpellable = true
  | .plain head, h => Selected.all_tokens h
  | .nested head items _, h => by
    rw [Item.isWritable, Bool.and_eq_true] at h
    rw [Item.tokens, List.all_append, Selected.all_tokens h.1, all_braced, Item.all_rows items h.2]
    rfl
  | .bundle name nullability, h => by
    rw [Item.isWritable] at h
    simp [Item.tokens, isSpellable, h, Nullability.all_tokens]
  | .flatten property lead items _, h => by
    simp only [Item.isWritable, Bool.and_eq_true] at h
    obtain ⟨⟨hproperty, hlead⟩, hitems⟩ := h
    have hflat : isIdentifier "flat" = true := by decide
    simp [Item.tokens, isSpellable, hflat, hproperty, Name.all_aliasTokens hlead, all_braced,
      Item.all_rows items hitems]
  | .idOnly property nullability newName, h => by
    rw [Item.isWritable, Bool.and_eq_true] at h
    have hid : isIdentifier "id" = true := by decide
    simp [Item.tokens, isSpellable, hid, h.1, Nullability.all_tokens, Name.all_aliasTokens h.2]
  | .negative name, h => by
    rw [Item.isWritable] at h
    simp [Item.tokens, isSpellable, h]
  | .user item, h => UserItem.all_tokens h
  | .group pattern items _, h => by
    rw [Item.isWritable, Bool.and_eq_true] at h
    rw [Item.tokens, List.all_append, AliasPattern.all_tokens h.1, all_braced,
      Item.all_rows items h.2]
    rfl

theorem Item.all_rows : ∀ items : List (Item P), Item.allWritable items = true →
    (Item.rows items).all (·.all isSpellable) = true
  | [], _ => rfl
  | item :: items, h => by
    rw [Item.allWritable, Bool.and_eq_true] at h
    rw [Item.rows, List.all_cons, Item.all_tokens item h.1, Item.all_rows items h.2]
    rfl

end

theorem Modifier.isIdentifier_text (m : Modifier) : isIdentifier m.text = true := by
  cases m with
  | stance s => cases s <;> decide
  | _ => decide

theorem Declaration.all_tokens {d : Declaration P} (h : d.isWritable = true) :
    d.tokens.all isSpellable = true := by
  simp only [isWritable, Bool.and_eq_true] at h
  obtain ⟨⟨htags, hname⟩, hitems⟩ := h
  have hmodifiers : (d.modifiers.map fun m => Token.word m.val.text).all isSpellable = true := by
    rw [List.all_map, List.all_eq_true]
    intro m _
    exact Modifier.isIdentifier_text m.val
  rw [tokens, List.all_append, List.all_append, TagItem.all_flatMap htags, hmodifiers,
    List.all_cons, all_braced, Item.all_rows _ hitems, isSpellable, hname]
  rfl

/-- **Every token of a source that can be written has a spelling.** -/
theorem Source.all_lines {s : Source P} (h : s.isWritable = true) :
    ∀ line ∈ s.lines, line.all isSpellable = true := by
  rw [isWritable, Bool.and_eq_true, List.all_eq_true] at h
  obtain ⟨hentity, hdeclarations⟩ := h
  intro line hline
  rw [lines, List.mem_cons, List.mem_append] at hline
  obtain rfl | hdefaults | hdeclaration := hline
  · rw [exportTokens, List.all_cons, List.all_append, Name.all_tokens, hentity]
    rfl
  · split at hdefaults
    · cases hdefaults
    · rw [List.mem_singleton] at hdefaults
      subst hdefaults
      have hword : isIdentifier "default" = true := by decide
      have hmodifiers : (s.modifiers.map fun m => [Token.word m.val.text]).all
          (·.all isSpellable) = true := by
        rw [List.all_map, List.all_eq_true]
        intro m _
        simp [isSpellable, Modifier.isIdentifier_text]
      rw [defaultTokens, List.all_cons, List.all_append, all_separated, hmodifiers, isSpellable,
        hword]
      rfl
  · obtain ⟨d, hd, rfl⟩ := List.mem_map.mp hdeclaration
    exact Declaration.all_tokens (hdeclarations d hd)

/-! ### How rows start and how long they are -/

/-- The first row, and each other one after a separator. -/
theorem Token.intercalate_cons (t : Token) (row : List Token) (rows : List (List Token)) :
    [t].intercalate (row :: rows) = row ++ rows.flatMap (t :: ·) := by
  induction rows generalizing row with
  | nil => simp
  | cons next rows ih => rw [List.intercalate_cons_cons, ih]; simp

/-- There are no more rows than tokens, if each row has one. -/
theorem Token.length_le_flatten {rows : List (List Token)} (h : ∀ row ∈ rows, row ≠ []) :
    rows.length ≤ rows.flatten.length := by
  induction rows with
  | nil => simp
  | cons row rows ih =>
    have hrow := List.length_pos_iff.mpr (h row List.mem_cons_self)
    have hrows := ih fun row hmem => h row (List.mem_cons_of_mem _ hmem)
    rw [List.flatten_cons, List.length_append, List.length_cons]
    omega

theorem Token.separated_singleton (row : List Token) : separated [row] = row :=
  List.intercalate_singleton

theorem Token.separated_cons_cons (row next : List Token) (rows : List (List Token)) :
    separated (row :: next :: rows) = row ++ Token.symbol .comma :: separated (next :: rows) := by
  simp [separated, List.intercalate_cons_cons]

theorem Token.length_le_separated (rows : List (List Token)) :
    rows.length ≤ (separated rows).length + 1 := by
  induction rows with
  | nil => simp
  | cons row rows ih =>
    cases rows with
    | nil => simp
    | cons next rows =>
      rw [separated_cons_cons, List.length_append]
      simp only [List.length_cons] at ih ⊢
      omega

theorem Token.separated_head (t : Token) (ts : List Token) (rows : List (List Token)) :
    ∃ more, separated ((t :: ts) :: rows) = t :: more := by
  cases rows with
  | nil => exact ⟨ts, separated_singleton _⟩
  | cons next rows => exact ⟨_, separated_cons_cons _ _ _⟩

/-- A name is its segments, joined one by one. -/
theorem Name.foldl_join (first : List Char) (more : List (List Char)) :
    (more.map String.ofList).foldl Name.join (String.ofList first) =
      String.ofList (['.'].intercalate (first :: more)) := by
  induction more generalizing first with
  | nil => simp
  | cons next more ih =>
    have hjoin : Name.join (String.ofList first) (String.ofList next) =
        String.ofList (first ++ ['.'] ++ next) := by
      simp [Name.join, String.ofList_append, String.append_assoc]
    rw [List.map_cons, List.foldl_cons, hjoin, ih, List.intercalate_cons_cons]
    cases more <;> simp

theorem Name.tokens_eq (name : Name) : ∃ first more, Name.segments name = first :: more ∧
    Name.tokens name = .word first :: more.flatMap (fun s => [.symbol .dot, .word s]) ∧
    more.foldl Name.join first = name := by
  cases hsplit : name.toList.splitOn '.' with
  | nil => exact absurd hsplit (List.splitOn_ne_nil _ _)
  | cons first more =>
    refine ⟨String.ofList first, more.map String.ofList, ?_, ?_, ?_⟩
    · rw [Name.segments, hsplit, List.map_cons]
    · rw [Name.tokens, Name.segments, hsplit, List.map_cons, List.map_cons, intercalate_cons]
      simp [List.flatMap_map]
    · rw [Name.foldl_join, ← hsplit, List.intercalate_splitOn, String.ofList_toList]

theorem Literal.tokens_head (l : Literal) : ∃ t ts, l.tokens = t :: ts ∧
    t ≠ .symbol .leftBracket ∧ t ≠ .symbol .rightBracket := by
  cases l with
  | integer value => by_cases hneg : value < 0 <;> simp [Literal.tokens, hneg]
  | _ => exact ⟨_, _, rfl, by simp⟩

theorem Value.tokens_head (v : Value) : ∃ t ts, v.tokens = t :: ts ∧ t ≠ .symbol .rightBracket := by
  cases v with
  | literal l =>
    obtain ⟨t, ts, htokens, _, ht⟩ := Literal.tokens_head l
    exact ⟨t, ts, htokens, ht⟩
  | constant name =>
    obtain ⟨first, more, _, htokens, _⟩ := Name.tokens_eq name
    exact ⟨_, _, htokens, by simp⟩
  | list values => exact ⟨_, _, rfl, by simp⟩

theorem TypeRef.tokens_head (type : TypeRef) : ∃ name ts, type.tokens = .word name :: ts := by
  obtain ⟨name, arguments, nullable⟩ := type
  obtain ⟨first, more, _, htokens, _⟩ := Name.tokens_eq name
  exact ⟨first, _, by rw [TypeRef.tokens, htokens, List.cons_append]⟩

theorem TagItem.length_le_flatMap (as : List (TagItem P)) :
    as.length ≤ (as.flatMap TagItem.tokens).length := by
  have hrows : ∀ row ∈ as.map TagItem.tokens, row ≠ [] := by
    intro row hrow
    obtain ⟨a, _, rfl⟩ := List.mem_map.mp hrow
    exact List.cons_ne_nil _ _
  simpa [List.flatMap_def] using length_le_flatten hrows

theorem AliasPattern.wordTokens_head (name : String) (t : Token) (rest : List Token) :
    (∃ more, wordTokens name ++ t :: rest = .word name :: more) ∨
      wordTokens name ++ t :: rest = t :: rest := by
  unfold wordTokens
  split
  · exact .inr rfl
  · exact .inl ⟨_, rfl⟩

theorem Item.tokens_head (item : Item P) :
    ∃ t ts, item.tokens = t :: ts ∧ t ≠ .symbol .rightBrace := by
  cases item with
  | user item =>
    cases htags : item.tags with
    | nil => exact ⟨_, _, by simp only [Item.tokens, UserItem.tokens, htags]; rfl, by simp⟩
    | cons first tags =>
      exact ⟨_, _, by simp only [Item.tokens, UserItem.tokens, htags, List.flatMap_cons,
        TagItem.tokens]; rfl, by simp⟩
  | _ => exact ⟨_, _, rfl, by simp⟩

theorem Modifier.ofWord?_text (m : Modifier) : Modifier.ofWord? m.text = some m := by
  cases m with
  | stance s => cases s <;> rfl
  | _ => rfl

theorem Modifier.text_ne_default (m : Modifier) : m.text ≠ "default" := by
  cases m with
  | stance s => cases s <;> decide
  | _ => decide

/-- The words before a body are the modifiers of a declaration and its name. -/
theorem Declaration.tokens_eq (d : Declaration P) : ∃ first more,
    d.modifiers.map (·.val.text) ++ [d.name.val] = first :: more ∧
      d.tokens = d.tags.flatMap TagItem.tokens ++
        Token.word first :: (more.map Token.word ++ braced (Item.rows d.body.items)) := by
  cases hmodifiers : d.modifiers with
  | nil => exact ⟨d.name.val, [], rfl, by simp [Declaration.tokens, hmodifiers]⟩
  | cons m ms =>
    refine ⟨m.val.text, ms.map (·.val.text) ++ [d.name.val], rfl, ?_⟩
    simp [Declaration.tokens, hmodifiers, Function.comp_def]

theorem Declaration.tokens_head (d : Declaration P) :
    ∃ t ts, d.tokens = t :: ts ∧ t ≠ .symbol .semicolon := by
  obtain ⟨first, more, _, htokens⟩ := Declaration.tokens_eq d
  rw [htokens]
  cases htags : d.tags with
  | nil => exact ⟨_, _, rfl, by simp⟩
  | cons tag tags => exact ⟨.symbol .atSign, _, rfl, by simp⟩

end Projection
