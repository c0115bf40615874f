import Projection.Diagnostic
import Projection.Text.Blank
import Projection.Token

/-!
# From text to tokens

`scan` looks at the head of a text and tells which token stands there and how many characters it
takes, or what is wrong. `tokenize` does so from the start of a source to its end. A fault does not
stop it: it goes on behind the character at which the fault showed, so that one run reports every
fault of a source.
-/

namespace Projection

/-- What can be wrong with the characters of a source. -/
inductive LexicalFault where
  | unterminatedString
  | unexpectedCharacter
  | invalidEscape
  | unterminatedComment
  | numberOutOfRange
  deriving DecidableEq, Repr

namespace LexicalFault

/-- The code of a fault. -/
def code : LexicalFault → Code
  | unterminatedString => .unterminatedString
  | unexpectedCharacter => .unexpectedCharacter
  | invalidEscape => .invalidEscape
  | unterminatedComment => .unterminatedComment
  | numberOutOfRange => .numberOutOfRange

/-- How to mend a fault, where there is something to say. -/
def help : LexicalFault → Option String
  | unterminatedString => some "add closing `\"`"
  | unexpectedCharacter => none
  | invalidEscape =>
    some "valid escapes: `\\n`, `\\r`, `\\t`, `\\\\`, `\\'`, `\\\"`, `\\0`, `\\u\x7bXXXX\x7d`"
  | unterminatedComment => some "add closing `*/`"
  | numberOutOfRange => some "integers must fit in a signed 64-bit value"

/-- The fault as a diagnostic with one label. -/
def diagnostic (fault : LexicalFault) (span : Span) : Diagnostic where
  code := some fault.code
  message := fault.code.description
  labels := [⟨span, fault.code.description, true⟩]
  help := fault.help

end LexicalFault

namespace Token

/-! ### Character classes -/

/-- A character of words: an ASCII letter or digit, `_` or `$`. -/
def isWordChar (c : Char) : Bool :=
  c.isAlphanum || c == '_' || c == '$'

/-- The value of a hexadecimal digit. -/
def hexDigit? (c : Char) : Option Nat :=
  if c.isDigit then some (c.toNat - '0'.toNat)
  else if 'a' ≤ c ∧ c ≤ 'f' then some (c.toNat - 'a'.toNat + 10)
  else if 'A' ≤ c ∧ c ≤ 'F' then some (c.toNat - 'A'.toNat + 10)
  else none

/-- The number that hexadecimal digits stand for. -/
def hexValue (digits : List Char) : Nat :=
  digits.foldl (fun n c => 16 * n + (hexDigit? c).getD 0) 0

/-! ### One token -/

/-- What stands at the head of a text: a token and the number of its characters, or a fault. The
characters that a fault marks start `lead` characters on and are `marked` many; the fault showed
at the character after them. -/
inductive Scan where
  | token (t : Token) (size : Nat)
  | fault (f : LexicalFault) (lead marked : Nat)
  deriving DecidableEq, Repr

/-- The text up to the first `*/`. -/
def untilClose : List Char → Option (List Char)
  | [] => none
  | '*' :: '/' :: _ => some []
  | c :: cs => (untilClose cs).map (c :: ·)

/-- A comment, from its opening mark. -/
def scanComment : List Char → Option Scan
  | '/' :: '/' :: rest =>
    let body := rest.takeWhile (· != '\n')
    some (.token (.lineComment (String.ofList body)) (body.length + 2))
  | '/' :: '*' :: rest =>
    match untilClose rest with
    | some body => some (.token (.blockComment (String.ofList body)) (body.length + 4))
    | none => some (.fault .unterminatedComment 0 2)
  | _ => none

/-- The character that an escape stands for and the number of its characters, without the
backslash. A code point has one to six hexadecimal digits. -/
def escape : List Char → Option (Char × Nat)
  | 'u' :: '\x7b' :: rest =>
    let digits := (rest.take 6).takeWhile (fun c => (hexDigit? c).isSome)
    if digits ≠ [] ∧ (rest.drop digits.length).head? = some '\x7d' ∧
        (hexValue digits).isValidChar then
      some (Char.ofNat (hexValue digits), digits.length + 3)
    else none
  | 'n' :: _ => some ('\n', 1)
  | 'r' :: _ => some ('\r', 1)
  | 't' :: _ => some ('\t', 1)
  | '0' :: _ => some ('\x00', 1)
  | '\\' :: _ => some ('\\', 1)
  | '\'' :: _ => some ('\'', 1)
  | '"' :: _ => some ('"', 1)
  | _ => none

/-- How a quoted text ends: at its closing quote, at a line end or the end of the source, or at a
backslash that starts no escape. -/
inductive QuotedEnd where
  | closed
  | stopped
  | badEscape
  deriving DecidableEq, Repr

/-- The inside of a quoted text: its value, the number of characters before its end, and the
end. -/
structure QuotedScan where
  value : List Char
  size : Nat
  ending : QuotedEnd
  deriving DecidableEq, Repr

/-- Reads a quoted text after its opening quote; the number counts characters that belong to an
escape already read. -/
def scanInside : Nat → List Char → QuotedScan
  | _, [] => ⟨[], 0, .stopped⟩
  | n + 1, _ :: cs =>
    let rest := scanInside n cs
    { rest with size := rest.size + 1 }
  | 0, c :: cs =>
    if c == '"' then ⟨[], 0, .closed⟩
    else if c == '\n' || c == '\r' then ⟨[], 0, .stopped⟩
    else if c == '\\' then
      match escape cs with
      | none => ⟨[], 0, .badEscape⟩
      | some (x, n) =>
        let rest := scanInside n cs
        ⟨x :: rest.value, rest.size + 1, rest.ending⟩
    else
      let rest := scanInside 0 cs
      ⟨c :: rest.value, rest.size + 1, rest.ending⟩

/-- A quoted text, from its opening quote. -/
def scanQuoted : List Char → Option Scan
  | '"' :: rest =>
    let inside := scanInside 0 rest
    match inside.ending with
    | .closed => some (.token (.quoted (String.ofList inside.value)) (inside.size + 2))
    | .stopped => some (.fault .unterminatedString 0 (inside.size + 1))
    | .badEscape => some (.fault .invalidEscape (inside.size + 1) 1)
  | _ => none

/-- The digits after a point, if there is one. -/
def fractionDigits : List Char → List Char
  | '.' :: more => more.takeWhile Char.isDigit
  | _ => []

/-- A number: digits, and a point with more digits. The character after it belongs to no word. A
number without a point is less than `2 ^ 63`. -/
def scanNumber (cs : List Char) : Option Scan :=
  let whole := cs.takeWhile Char.isDigit
  let rest := cs.dropWhile Char.isDigit
  let fraction := fractionDigits rest
  let rest := if fraction.isEmpty then rest else rest.drop (fraction.length + 1)
  if whole.isEmpty || rest.head?.any isWordChar then none
  else if fraction.isEmpty then
    let value := Binary64.digitsValue whole
    if value < Nat.pow 2 63 then some (.token (.integer value) whole.length)
    else some (.fault .numberOutOfRange 0 whole.length)
  else
    some (.token (.decimal (Binary64.ofDecimal whole fraction))
      (whole.length + 1 + fraction.length))

/-- A word or a keyword. -/
def scanWord (cs : List Char) : Option Scan :=
  let word := cs.takeWhile isWordChar
  if word.isEmpty || cs.head?.any Char.isDigit then none
  else
    let name := String.ofList word
    let t := if name == Keyword.exportWord.text then .keyword .exportWord
      else if name == Keyword.asWord.text then .keyword .asWord
      else .word name
    some (.token t word.length)

/-- A sign of punctuation. -/
def scanSymbol : List Char → Option Scan
  | '-' :: '>' :: _ => some (.token (.symbol .arrow) 2)
  | c :: _ => (Symbol.ofChar? c).map fun s => .token (.symbol s) 1
  | [] => none

/-- A line end, or a run of other blanks. -/
def scanBlank : List Char → Option Scan
  | '\n' :: _ => some (.token .newline 1)
  | cs =>
    let run := cs.takeWhile fun c => Text.isBlank c && c != '\n'
    if run.isEmpty then none else some (.token .blank run.length)

/-- What stands at the head of a text that is not empty. -/
def scan (cs : List Char) : Scan :=
  (scanComment cs <|> scanQuoted cs <|> scanNumber cs <|> scanWord cs <|> scanSymbol cs <|>
    scanBlank cs).getD (.fault .unexpectedCharacter 0 0)

/-! ### All tokens -/

/-- The number of bytes of a text. -/
def byteSize (cs : List Char) : Nat :=
  cs.foldr (fun c size => c.utf8Size + size) 0

/-- The tokens and faults of a text in their order. `offset` is the place of the text in the
source, in bytes, and `skip` the number of characters at its head that were dealt with before. -/
def pieces (offset : Nat) : Nat → List Char → List (Located Span (Except LexicalFault Token))
  | _, [] => []
  | skip + 1, c :: cs => pieces (offset + c.utf8Size) skip cs
  | 0, c :: cs =>
    match scan (c :: cs) with
    | .token t size =>
      ⟨.ok t, .between offset (offset + byteSize ((c :: cs).take size))⟩ ::
        pieces (offset + c.utf8Size) (size - 1) cs
    | .fault f lead marked =>
      let start := offset + byteSize ((c :: cs).take lead)
      let stop := offset + byteSize ((c :: cs).take (lead + marked))
      ⟨.error f, .between start (max stop (start + 1))⟩ ::
        pieces (offset + c.utf8Size) (lead + marked) cs

/-- The faults of a text as diagnostics. -/
def faultsOf (found : List (Located Span (Except LexicalFault Token))) : List Diagnostic :=
  found.filterMap fun p =>
    match p.val with
    | .error f => some (f.diagnostic p.pos)
    | .ok _ => none

/-- The tokens of a text. -/
def tokensOf (found : List (Located Span (Except LexicalFault Token))) :
    List (Located Span Token) :=
  found.filterMap fun p =>
    match p.val with
    | .ok t => some ⟨t, p.pos⟩
    | .error _ => none

/-- The tokens of a source, comments and blanks among them, or all its faults. -/
def tokenize (source : String) : Except Report (List (Located Span Token)) :=
  let found := pieces 0 0 source.toList
  if (faultsOf found).isEmpty then .ok (tokensOf found) else .error ⟨faultsOf found⟩

end Token

end Projection
