import Projection.Diagnostic
import Projection.Source
import Projection.Token.Lexer

/-!
# From tokens to sources

The parser reads all tokens of a text, comments and blanks among them, and skips these before every
look at a token. It knows the tokens by their numbers: the positions in what it reads are ranges of
tokens. `Source.parse` gives the ranges their place in the text afterwards.

What the parser does with the text is in `TokenStream`: it looks at the next token, takes it and
goes on. The text with its comments and blanks is one such stream (`Tape`); tokens that are all
looked at are another (`Cursor`).

Loops and nested bodies count down from the number of tokens ahead that can be taken; each round
takes one, so the count does not run out before the tokens do.
-/

namespace Projection

/-- What the parser looks for. -/
inductive Expected where
  | exportStatement
  | identifier
  | symbol (s : Symbol)
  | type
  | defaultValue
  | annotationValue
  | item
  | patternText
  | replacement
  | declaration
  deriving DecidableEq, Repr

/-- What the parser looks for, in words. -/
def Expected.text : Expected → String
  | exportStatement => "`export` statement"
  | identifier => "identifier"
  | symbol s => "`" ++ s.text ++ "`"
  | type => "`:` and a type"
  | defaultValue => "default value"
  | annotationValue => "annotation value"
  | item => "selection item or `\x7d`"
  | patternText => "`^`, `$` or the text to replace"
  | replacement => "replacement text after `->`"
  | declaration => "DTO declaration"

/-- What can be wrong with the tokens of a source. -/
inductive SyntaxFault (P : Type) where
  | unexpected (found : Located P Token) (expected : Expected)
  | ended (expected : Expected)
  | unknownModifier (word : Located P Name)
  /-- A fault in the declaration of the named type. -/
  | within (declaration : Name) (fault : SyntaxFault P)
  deriving Repr

namespace SyntaxFault

/-- The remark that tells in which declaration a fault is. -/
def context (declaration : Name) : String :=
  "in declaration `" ++ declaration ++ "`"

/-- The fault with its positions changed. -/
def move {P Q : Type} (f : P → Q) : SyntaxFault P → SyntaxFault Q
  | unexpected found expected => unexpected (found.move f) expected
  | ended expected => ended expected
  | unknownModifier word => unknownModifier (word.move f)
  | within declaration fault => within declaration (fault.move f)

/-- The fault as a diagnostic, for a text with this number of bytes. -/
def diagnostic (size : Nat) : SyntaxFault Span → Diagnostic
  | unexpected found expected =>
    { code := some .unexpectedToken
      message := "unexpected `" ++ found.val.text ++ "`: expected " ++ expected.text
      labels := [⟨found.pos, "unexpected token", true⟩]
      help := some "check the syntax near this token" }
  | ended expected =>
    { code := some .incompleteInput
      message := "unexpected end of input: expected " ++ expected.text
      labels := [⟨.between size size, "input ends here", true⟩]
      help := some "ensure the input is complete" }
  | unknownModifier word =>
    { code := some .unknownModifier
      message := "unknown modifier `" ++ word.val ++ "`"
      labels := [⟨word.pos, "not a modifier", true⟩]
      help := some ("expected one of `input`, `specification`, `fixed`, `static`, `dynamic`, " ++
        "`fuzzy`, `deleted`") }
  | within declaration fault => (fault.diagnostic size).inContext (context declaration)

end SyntaxFault

/-- The tokens from `first` to `last`, by number. -/
structure TokenRange where
  first : Nat
  last : Nat
  deriving DecidableEq, Repr

namespace TokenRange

/-- One token. -/
def single (index : Nat) : TokenRange :=
  ⟨index, index⟩

/-- From the start of one range to the end of a later one. -/
def upTo (r s : TokenRange) : TokenRange :=
  ⟨r.first, s.last⟩

/-- The place of a range in a text, given the places of its tokens. -/
def span (spans : Array Span) (r : TokenRange) : Span :=
  (spans.getD r.first (.between 0 0)).union (spans.getD r.last (.between 0 0))

end TokenRange

/-! ### Streams of tokens -/

/-- What a parser looks at: tokens one after the other, by number. -/
class TokenStream (σ : Type) where
  /-- The next token. -/
  head? : σ → Option Token
  /-- The number of the next token. -/
  index : σ → Nat
  /-- What follows the next token. -/
  tail : σ → σ
  /-- How often a token can be taken. -/
  remaining : σ → Nat

/-- All tokens ahead, comments and blanks among them, and the number of the first. -/
structure Tape where
  ahead : List Token
  index : Nat
  deriving DecidableEq, Repr

namespace Tape

/-- The tape from a token on, after comments and blanks. -/
def skipFrom (index : Nat) : List Token → Tape
  | [] => ⟨[], index⟩
  | t :: ts => if t.isTrivia then skipFrom (index + 1) ts else ⟨t :: ts, index⟩

/-- The tape after comments and blanks. -/
def skip (tape : Tape) : Tape :=
  skipFrom tape.index tape.ahead

end Tape

/-- Comments and blanks are skipped before every look at a token. -/
instance : TokenStream Tape where
  head? tape := tape.skip.ahead.head?
  index tape := tape.skip.index
  tail tape := ⟨tape.skip.ahead.tail, tape.skip.index + 1⟩
  remaining tape := (tape.ahead.filter fun t => !t.isTrivia).length

/-- Tokens ahead that are all looked at, and the number of the first. -/
structure Cursor where
  ahead : List Token
  index : Nat
  deriving DecidableEq, Repr

instance : TokenStream Cursor where
  head? c := c.ahead.head?
  index c := c.index
  tail c := ⟨c.ahead.tail, c.index + 1⟩
  remaining c := c.ahead.length

/-! ### Parsers -/

/-- A reader of tokens from a stream. -/
abbrev ParserOn (σ : Type) :=
  StateT σ (Except (SyntaxFault TokenRange))

/-- A reader of tokens that are all looked at. -/
abbrev Parser :=
  ParserOn Cursor

namespace Parser

variable {σ : Type} [TokenStream σ] {α : Type}

/-! ### One token -/

/-- Stops at the next token. -/
def fail (expected : Expected) : ParserOn σ α := fun c =>
  match TokenStream.head? c with
  | none => throw (.ended expected)
  | some t => throw (.unexpected ⟨t, .single (TokenStream.index c)⟩ expected)

/-- The number of tokens ahead. -/
def remaining : ParserOn σ Nat := do
  return TokenStream.remaining (← get)

/-- The next token, which stays ahead. -/
def peek : ParserOn σ (Option Token) := do
  return TokenStream.head? (← get)

/-- The token after the next one. -/
def peekSecond : ParserOn σ (Option Token) := do
  return TokenStream.head? (TokenStream.tail (← get))

/-- The next token is this symbol. -/
def sees (s : Symbol) : ParserOn σ Bool := do
  return (← peek) == some (.symbol s)

/-- Takes the next token. -/
def advance : ParserOn σ TokenRange := fun c =>
  return (.single (TokenStream.index c), TokenStream.tail c)

/-- Takes the next token if it is this one. -/
def eatToken (t : Token) : ParserOn σ (Option TokenRange) := do
  if (← peek) == some t then return some (← advance) else return none

/-- Takes a symbol if it is next. -/
def eat (s : Symbol) : ParserOn σ (Option TokenRange) :=
  eatToken (.symbol s)

/-- Takes a symbol that has to be next. -/
def expect (s : Symbol) (expected : Expected := .symbol s) : ParserOn σ TokenRange := do
  match ← eat s with
  | some r => return r
  | none => fail expected

/-- Takes a word if one is next. -/
def word? : ParserOn σ (Option (Located TokenRange Name)) := do
  match ← peek with
  | some (.word name) => return some ⟨name, ← advance⟩
  | _ => return none

/-- Takes a word that has to be next. -/
def word : ParserOn σ (Located TokenRange Name) := do
  match ← word? with
  | some w => return w
  | none => fail .identifier

/-- Runs a parser, and takes nothing if it fails. -/
def attempt (p : ParserOn σ α) : ParserOn σ (Option α) := fun c =>
  match p c with
  | .ok (a, c') => .ok (some a, c')
  | .error _ => .ok (none, c)

/-- Runs a parser in the declaration of the named type, which its faults are told to be in. -/
def within (declaration : Name) (p : ParserOn σ α) : ParserOn σ α := fun c =>
  match p c with
  | .ok result => .ok result
  | .error fault => .error (.within declaration fault)

omit [TokenStream σ] in
theorem within_eq_ok {declaration : Name} {p : ParserOn σ α} {c : σ} {result : α × σ} :
    within declaration p c = .ok result ↔ p c = .ok result := by
  rw [within]
  cases p c with
  | ok result' => rfl
  | error fault => simp

/-! ### Names, marks and aliases -/

/-- Segments, each after a dot, added to a name. -/
def moreSegments : Nat → Located TokenRange Name → ParserOn σ (Located TokenRange Name)
  | 0, name => return name
  | n + 1, name => do
    match ← eat .dot with
    | none => return name
    | some _ =>
      let segment ← word
      moreSegments n ⟨Name.join name.val segment.val, name.pos.upTo segment.pos⟩

/-- A name of one or more segments. -/
def qualifiedName : ParserOn σ (Located TokenRange Name) := do
  let first ← word
  moreSegments (← remaining) first

/-- A mark `?` or `!`, if there is one. -/
def nullability : ParserOn σ (Option (Located TokenRange Nullability)) := do
  match ← eat .question with
  | some r => return some ⟨.nullable, r⟩
  | none => return (← eat .bang).map fun r => ⟨.nonNull, r⟩

/-- `as alias`, if it is there. An `as` before a parenthesis opens the next item. -/
def newName : ParserOn σ (Option (Located TokenRange Name)) := do
  if (← peek) == some (.keyword .asWord) && (← peekSecond) != some (.symbol .leftParen) then
    let _ ← advance
    return some (← word)
  else return none

/-- An alias with the mark that may stand before or after it. -/
def markedAlias :
    ParserOn σ (Option (Located TokenRange Nullability) × Option (Located TokenRange Name)) := do
  let before ← nullability
  let name ← newName
  match before with
  | some mark => return (some mark, name)
  | none => return (← nullability, name)

/-! ### Values and types -/

/-- The literal that a token stands for; only numbers have a sign. -/
def literal? (negative : Bool) : Token → Option Literal
  | .integer n => some (.integer (if negative then -n else n))
  | .decimal x => some (.decimal (if negative then x.neg else x))
  | .quoted s => if negative then none else some (.quoted s)
  | .word "true" => if negative then none else some (.boolean true)
  | .word "false" => if negative then none else some (.boolean false)
  | _ => none

/-- A minus sign, if there is one, and what `read` makes of the next token. Where that is nothing,
the next token stays ahead, and the answer tells whether there was a sign. -/
def signed (read : Bool → Token → Option α) : ParserOn σ (Located TokenRange α ⊕ Bool) := do
  let minus ← eat .minus
  match (← peek).bind (read minus.isSome) with
  | some a =>
    let r ← advance
    return .inl ⟨a, (minus.getD r).upTo r⟩
  | none => return .inr minus.isSome

/-- The rest of a list of values after its bracket, with the closing bracket. A comma may stand
after the last value. -/
def listRest (value : ParserOn σ (Located TokenRange Value)) :
    Nat → ParserOn σ (List Value × TokenRange)
  | 0 => fail .annotationValue
  | n + 1 => do
    match ← eat .rightBracket with
    | some close => return ([], close)
    | none =>
      let first ← value
      match ← eat .comma with
      | some _ =>
        let (more, close) ← listRest value n
        return (first.val :: more, close)
      | none => return ([first.val], ← expect .rightBracket)

/-- The value of an annotation argument. -/
def value : Nat → ParserOn σ (Located TokenRange Value)
  | 0 => fail .annotationValue
  | n + 1 => do
    match ← eat .leftBracket with
    | some opening =>
      let (values, close) ← listRest (value n) n
      return ⟨.list values, opening.upTo close⟩
    | none =>
      match ← signed literal? with
      | .inl l => return l.map .literal
      | .inr true => fail .annotationValue
      | .inr false =>
        match ← attempt qualifiedName with
        | some name => return name.map .constant
        | none => fail .annotationValue

/-- One argument of an annotation: `name = value`, or a value on its own. -/
def argument : ParserOn σ (Located TokenRange Name × Located TokenRange Value) := do
  if (← peekSecond) == some (.symbol .equals) then
    match ← word? with
    | some name =>
      let _ ← advance
      return (name, ← value (← remaining))
    | none => positional
  else positional
where
  positional : ParserOn σ (Located TokenRange Name × Located TokenRange Value) := do
    let v ← value (← remaining)
    return (⟨"value", v.pos⟩, v)

/-- Arguments with commas between them. -/
def arguments : Nat → ParserOn σ (List (Located TokenRange Name × Located TokenRange Value))
  | 0 => fail .annotationValue
  | n + 1 => do
    let first ← argument
    match ← eat .comma with
    | some _ => return first :: (← arguments n)
    | none => return [first]

/-- An annotation: `@Name`, or `@Name(arguments)`. -/
def tag : ParserOn σ (TagItem TokenRange) := do
  let _ ← expect .atSign
  let name ← qualifiedName
  match ← eat .leftParen with
  | none => return ⟨name, []⟩
  | some _ =>
    match ← eat .rightParen with
    | some _ => return ⟨name, []⟩
    | none =>
      let arguments ← arguments (← remaining)
      let _ ← expect .rightParen
      return ⟨name, arguments⟩

/-- All annotations that come next. -/
def tags : Nat → ParserOn σ (List (TagItem TokenRange))
  | 0 => return []
  | n + 1 => do
    if ← sees .atSign then
      let first ← tag
      return first :: (← tags n)
    else return []

/-- Types with commas between them. -/
def typesBy (type : ParserOn σ (Located TokenRange TypeRef)) : Nat → ParserOn σ (List TypeRef)
  | 0 => fail .identifier
  | n + 1 => do
    let first ← type
    match ← eat .comma with
    | some _ => return first.val :: (← typesBy type n)
    | none => return [first.val]

/-- A type: `name<arguments>?`. -/
def type : Nat → ParserOn σ (Located TokenRange TypeRef)
  | 0 => fail .identifier
  | n + 1 => do
    let name ← qualifiedName
    match ← eat .less with
    | none => mark name.val name.pos []
    | some _ =>
      let arguments ← typesBy (type n) n
      let close ← expect .greater
      mark name.val (name.pos.upTo close) arguments
where
  mark (name : Name) (pos : TokenRange) (arguments : List TypeRef) :
      ParserOn σ (Located TokenRange TypeRef) := do
    match ← eat .question with
    | some question => return ⟨⟨name, arguments, true⟩, pos.upTo question⟩
    | none => return ⟨⟨name, arguments, false⟩, pos⟩

/-- The default that a token stands for. -/
def default? (negative : Bool) (t : Token) : Option Default :=
  if t = .word "null" ∧ negative = false then some .null
  else (literal? negative t).map .literal

/-- The default of a user-defined property. -/
def defaultValue : ParserOn σ (Located TokenRange Default) := do
  match ← signed default? with
  | .inl d => return d
  | .inr _ => fail .defaultValue

/-! ### Items -/

/-- A user-defined property after its name. -/
def userItem (tags : List (TagItem TokenRange)) (name : Located TokenRange Name) :
    ParserOn σ (Item TokenRange) := do
  let _ ← expect .colon .type
  let type ← type (← remaining)
  match ← eat .equals with
  | some _ => return .user ⟨tags, name, type, some (← defaultValue)⟩
  | none => return .user ⟨tags, name, type, none⟩

/-- A word between parentheses. -/
def parenthesized : ParserOn σ (Located TokenRange Name) := do
  let _ ← expect .leftParen
  let w ← word
  let _ ← expect .rightParen
  return w

/-- The text that a pattern looks for, and whether a `$` stands at its end. -/
def patternText : ParserOn σ (String × Bool) := do
  match ← word? with
  | some w =>
    match AliasPattern.withoutTail? ['$'] w.val.toList with
    | some rest => return (String.ofList rest, true)
    | none => return (w.val, false)
  | none => return ("", false)

/-- The pattern of an alias group after its `as`. A pattern without text has one anchor, and only a
text with one anchor may be replaced by nothing. -/
def pattern (keyword : TokenRange) : ParserOn σ (Located TokenRange AliasPattern) := do
  let _ ← expect .leftParen
  let atStart := (← eat .caret).isSome
  let (sought, atEnd) ← patternText
  if sought.isEmpty && atStart == atEnd then
    fail .patternText
  else
    let _ ← expect .arrow
    let replacement := ((← word?).map (·.val)).getD ""
    if replacement.isEmpty && (sought.isEmpty || atStart == atEnd) then
      fail .replacement
    else
      let close ← expect .rightParen
      return ⟨⟨atStart, atEnd, sought, replacement⟩, keyword.upTo close⟩

/-- A plain selection after its name. -/
def selected (name : Located TokenRange Name) : ParserOn σ (Selected TokenRange) := do
  let recursive := (← eat .star).isSome
  let (nullability, newName) ← markedAlias
  return ⟨name, recursive, nullability, newName⟩

/-- An item that starts with a word, after that word. -/
def wordItem (body : ParserOn σ (Body TokenRange)) (name : Located TokenRange Name) :
    ParserOn σ (Item TokenRange) := do
  let called ← sees .leftParen
  if ← sees .colon then
    userItem [] name
  else if called && (name.val == "flat" || name.val == "flatten") then
    let property ← parenthesized
    let lead ← newName
    let body ← body
    return .flatten property lead body.items body.extent
  else if called && name.val == "id" then
    let property ← parenthesized
    let (nullability, newName) ← markedAlias
    return .idOnly property nullability newName
  else
    let head ← selected name
    if ← sees .leftBrace then
      let body ← body
      return .nested head body.items body.extent
    else return .plain head

/-- An item. The parser of the bodies inside it is an argument. -/
def item (body : ParserOn σ (Body TokenRange)) : ParserOn σ (Item TokenRange) := do
  match ← peek with
  | some (.symbol .atSign) =>
    let tags ← tags (← remaining)
    userItem tags (← word)
  | some (.keyword .asWord) =>
    let pattern ← pattern (← advance)
    let body ← body
    return .group pattern body.items body.extent
  | some (.symbol .hash) =>
    let hash ← advance
    let name ← word
    return .bundle ⟨name.val, hash.upTo name.pos⟩ (← nullability)
  | some (.symbol .minus) =>
    let _ ← advance
    return .negative (← word)
  | _ =>
    match ← word? with
    | some name => wordItem body name
    | none => fail .item

/-- Items up to the closing brace, with that brace. A comma may stand after each. -/
def itemsRest (item : ParserOn σ (Item TokenRange)) :
    Nat → ParserOn σ (List (Item TokenRange) × TokenRange)
  | 0 => fail .item
  | n + 1 => do
    match ← eat .rightBrace with
    | some close => return ([], close)
    | none =>
      let first ← item
      let _ ← eat .comma
      let (more, close) ← itemsRest item n
      return (first :: more, close)

/-- A body between braces. -/
def body : Nat → ParserOn σ (Body TokenRange)
  | 0 => fail (.symbol .leftBrace)
  | n + 1 => do
    let opening ← expect .leftBrace
    let (items, close) ← itemsRest (item (body n)) n
    return ⟨items, opening.upTo close⟩

/-! ### Declarations -/

/-- The words before a body: those before the last one, and the last one. -/
def headerWords : Nat → Located TokenRange Name →
    ParserOn σ (List (Located TokenRange Name) × Located TokenRange Name)
  | 0, name => return ([], name)
  | n + 1, name => do
    match ← word? with
    | some next =>
      let (more, last) ← headerWords n next
      return (name :: more, last)
    | none => return ([], name)

/-- The words of a `default` statement, which are modifiers; a comma may stand before each. -/
def defaultWords : Nat → ParserOn σ (List (Located TokenRange Name))
  | 0 => return []
  | n + 1 => do
    let _ ← eat .comma
    match ← peek with
    | some (.word next) =>
      if (Modifier.ofWord? next).isSome then
        let w ← word
        return w :: (← defaultWords n)
      else return []
    | _ => return []

/-- The modifiers that words stand for. -/
def modifiers : List (Located TokenRange Name) → ParserOn σ (List (Located TokenRange Modifier))
  | [] => return []
  | w :: ws =>
    match Modifier.ofWord? w.val with
    | some m => return ⟨m, w.pos⟩ :: (← modifiers ws)
    | none => throw (.unknownModifier w)

/-- A declaration after its header. -/
def declaration (tags : List (TagItem TokenRange))
    (words : List (Located TokenRange Name)) (name : Located TokenRange Name) :
    ParserOn σ (Declaration TokenRange) :=
  within name.val do
    let modifiers ← modifiers words
    let body ← body (← remaining)
    let _ ← eat .semicolon
    return ⟨name, tags, modifiers, body⟩

/-- A `default` statement gives modifiers to every type of a source. -/
inductive Statement where
  | defaults (modifiers : List (Located TokenRange Modifier))
  | declaration (d : Declaration TokenRange)
  deriving Repr

namespace Statement

/-- The modifiers that a statement gives to every type. -/
def modifiers : Statement → List (Located TokenRange Modifier)
  | defaults modifiers => modifiers
  | declaration _ => []

/-- The type that a statement declares. -/
def declaration? : Statement → Option (Declaration TokenRange)
  | defaults _ => none
  | declaration d => some d

end Statement

/-- A statement after its first word, which is `default`. If a body follows its words, it is a
declaration after all. -/
def defaultStatement (first : Located TokenRange Name) : ParserOn σ Statement := do
  let words ← defaultWords (← remaining)
  if ← sees .leftBrace then
    let all := first :: words
    return .declaration (← declaration [] all.dropLast (words.getLast?.getD first))
  else
    let _ ← eat .semicolon
    return .defaults (← modifiers words)

/-- A `default` statement or a declaration. -/
def statement : ParserOn σ Statement := do
  let tags ← tags (← remaining)
  match ← word? with
  | none => fail .declaration
  | some first =>
    if tags.isEmpty && first.val == "default" then
      defaultStatement first
    else
      let (words, name) ← headerWords (← remaining) first
      if ← sees .leftBrace then
        return .declaration (← declaration tags words name)
      else fail (.symbol .leftBrace)

/-- All statements up to the end of the tokens. -/
def statements : Nat → ParserOn σ (List Statement)
  | 0 => return []
  | n + 1 => do
    match ← peek with
    | none => return []
    | some _ =>
      let first ← statement
      return first :: (← statements n)

/-- `export name;`, where the semicolon may be left out. -/
def exported : ParserOn σ (Located TokenRange Name) := do
  match ← eatToken (.keyword .exportWord) with
  | none => fail .exportStatement
  | some _ =>
    let entity ← qualifiedName
    let _ ← eat .semicolon
    return entity

/-- A whole source. -/
def source : ParserOn σ (Source TokenRange) := do
  let entity ← exported
  let statements ← statements (← remaining)
  return {
    entity
    modifiers := statements.flatMap Statement.modifiers
    declarations := statements.filterMap Statement.declaration? }

end Parser

namespace Source

/-- The source that tokens stand for, among which are no comments and blanks. -/
def ofSignificant (tokens : List Token) : Except (SyntaxFault TokenRange) (Source TokenRange) :=
  match Parser.source (⟨tokens, 0⟩ : Cursor) with
  | .ok (s, _) => .ok s
  | .error fault => .error fault

/-- The source that tokens stand for, whatever comments and blanks are among them. -/
def ofTokens (tokens : List Token) : Except (SyntaxFault TokenRange) (Source TokenRange) :=
  match Parser.source (⟨tokens, 0⟩ : Tape) with
  | .ok (s, _) => .ok s
  | .error fault => .error fault

/-- Reads a source. A text with lexical faults is refused for those alone. -/
def parse (text : String) : Except Report (Source Span) := do
  let tokens ← Token.tokenize text
  let spans := (tokens.map (·.pos)).toArray
  match ofTokens (tokens.map (·.val)) with
  | .ok s => .ok (s.move (TokenRange.span spans))
  | .error fault =>
    let size := (tokens.getLast?.map (·.pos.stop)).getD 0
    .error ⟨[(fault.move (TokenRange.span spans)).diagnostic size]⟩

end Source

end Projection
