import Projection.Text.Cluster

/-!
# Words of a name

A name is split into words at underscores, hyphens and spaces, which disappear, and where its
letters say so: between a lower and an upper case letter, between a letter and a digit, and before
the last capital of an acronym that a lower case letter follows. Two separators in a row leave an
empty word between them, so no separator is lost when the words are joined again.

`snakeCase` writes the words in lower case with underscores between them, `pascalCase` writes each
with a capital and joins them. Names are cut between clusters, so marks stay with their letter.

Both belong to a general library for the case of names, on which the generator relies. They are
written out here as that library defines them, so the names of files and structs are known down to
their characters.
-/

namespace Projection.Text

/-- What a character is, as far as the words of a name are concerned. -/
inductive LetterClass where
  | small
  | capital
  | digit
  | other
  deriving DecidableEq, Repr

/-- A letter is of the case that its mapping leaves as it is. -/
def LetterClass.of (cluster : List Char) : LetterClass :=
  let up := cluster.flatMap upper
  let low := lowerWord [] cluster
  if cluster.all Char.isDigit then .digit
  else if up == low then .other
  else if cluster == up then .capital
  else if cluster == low then .small
  else .other

/-- The character stands between words and belongs to none. -/
def isSeparator (cluster : List Char) : Bool :=
  cluster == ['_'] || cluster == ['-'] || cluster == [' ']

/-- A word ends after `here`, given the classes of the two characters that follow. -/
def LetterClass.breaksBefore (here : LetterClass) : Option LetterClass → Option LetterClass → Bool
  | some .capital, next =>
    here == .small || here == .digit || (here == .capital && next == some .small)
  | some .small, _ => here == .digit
  | some .digit, _ => here == .small || here == .capital
  | _, _ => false

/-- The words of a sequence of characters; there is always at least one, possibly empty. -/
def segments : List (List Char) → List (List Char)
  | [] => [[]]
  | c :: cs =>
    if isSeparator c then [] :: segments cs
    else if (LetterClass.of c).breaksBefore (cs[0]?.map LetterClass.of)
        (cs[1]?.map LetterClass.of) then
      c :: segments cs
    else
      match segments cs with
      | word :: rest => (c ++ word) :: rest
      | [] => [c]

/-- The words of a name. -/
def words (s : String) : List (List Char) :=
  segments (clusters s.toList)

/-- A word with a capital first letter and the rest in lower case. -/
def capitalWord : List Char → List Char
  | [] => []
  | c :: cs => upper c ++ lowerWord [] cs

/-- The words in lower case, with underscores between them. -/
def snakeCase (s : String) : String :=
  String.intercalate "_" ((words s).map fun w => String.ofList (lowerWord [] w))

/-- The words with a capital each, joined. -/
def pascalCase (s : String) : String :=
  String.ofList ((words s).flatMap capitalWord)

end Projection.Text
