import Projection.Decimal.Shortest

/-!
# Tokens

The tokens of a source text: two keywords, words, literals, symbols, and the comments and blanks
between them, which carry no meaning.
-/

namespace Projection

/-- A sign of punctuation. -/
inductive Symbol where
  | atSign
  | hash
  | dot
  | comma
  | semicolon
  | equals
  | question
  | bang
  | star
  | minus
  | colon
  | caret
  | arrow
  | less
  | greater
  | leftParen
  | rightParen
  | leftBrace
  | rightBrace
  | leftBracket
  | rightBracket
  deriving DecidableEq, Repr

namespace Symbol

/-- The sign as it is written. -/
def text : Symbol → String
  | atSign => "@"
  | hash => "#"
  | dot => "."
  | comma => ","
  | semicolon => ";"
  | equals => "="
  | question => "?"
  | bang => "!"
  | star => "*"
  | minus => "-"
  | colon => ":"
  | caret => "^"
  | arrow => "->"
  | less => "<"
  | greater => ">"
  | leftParen => "("
  | rightParen => ")"
  | leftBrace => "\x7b"
  | rightBrace => "\x7d"
  | leftBracket => "["
  | rightBracket => "]"

/-- The sign that is written as this one character. -/
def ofChar? : Char → Option Symbol
  | '@' => some atSign
  | '#' => some hash
  | '.' => some dot
  | ',' => some comma
  | ';' => some semicolon
  | '=' => some equals
  | '?' => some question
  | '!' => some bang
  | '*' => some star
  | '-' => some minus
  | ':' => some colon
  | '^' => some caret
  | '<' => some less
  | '>' => some greater
  | '(' => some leftParen
  | ')' => some rightParen
  | '\x7b' => some leftBrace
  | '\x7d' => some rightBrace
  | '[' => some leftBracket
  | ']' => some rightBracket
  | _ => none

end Symbol

/-- A word with a meaning of its own wherever it stands. -/
inductive Keyword where
  | exportWord
  | asWord
  deriving DecidableEq, Repr

/-- The keyword as it is written. -/
def Keyword.text : Keyword → String
  | exportWord => "export"
  | asWord => "as"

/-- A token. Literals hold their value, comments the text between their marks. -/
inductive Token where
  | keyword (k : Keyword)
  | word (name : String)
  | quoted (value : String)
  | integer (value : Nat)
  | decimal (value : Binary64)
  | symbol (s : Symbol)
  | lineComment (text : String)
  | blockComment (text : String)
  | blank
  | newline
  deriving DecidableEq, Repr

namespace Token

/-- A token that may stand between any two others without a change of meaning. -/
def isTrivia : Token → Bool
  | lineComment _ | blockComment _ | blank | newline => true
  | _ => false

/-- How a token is named in a message. A quoted text is shown as what it stands for, with no
escapes. -/
def text : Token → String
  | keyword k => k.text
  | word name => name
  | quoted value => "\"" ++ value ++ "\""
  | integer value => toString value
  | decimal value => Binary64.write Binary64.plain value
  | symbol s => s.text
  | lineComment comment => "//" ++ comment
  | blockComment comment => "/*" ++ comment ++ "*/"
  | blank => " "
  | newline => "\n"

end Token

end Projection
