import Projection.Document
import Projection.Decimal.Shortest

/-!
# Documents as TOML

The text form of documents. The reader takes tables, lists of tables, dotted keys and all values but
dates and `nan`. It refuses a table or a key that is given twice, and values that stand too deep in
one another. The printer gives each table a header of its own, except for those inside lists of
other values, which it writes in line.

Reader and printer belong to a library for this format, on which the program relies for its schema
files. They are written out here as that library defines them, so a run is known from the characters
of its files on.
-/

namespace Projection.Toml

/-! ### Tables in the making -/

/-- How a table came to be. It decides what may still be added to it. -/
inductive Origin where
  /-- It stands above a table that has a header. -/
  | implied
  /-- It has a header. -/
  | headed
  /-- It stands above an entry in a dotted key. -/
  | dotted
  deriving DecidableEq, Repr

/-- An entry that later lines may add to. -/
inductive Draft where
  | value (document : Document)
  | table (origin : Origin) (entries : List (String × Draft))
  | tables (items : List (List (String × Draft)))

/-- The entries of a table in the making. -/
abbrev Entries := List (String × Draft)

mutual

/-- The document of a draft. -/
def Draft.document : Draft → Document
  | .value document => document
  | .table _ entries => .table (documents entries)
  | .tables items => .list (tableDocuments items)

/-- The documents of entries. -/
def documents : List (String × Draft) → List (String × Document)
  | [] => []
  | (key, draft) :: rest => (key, draft.document) :: documents rest

/-- The documents of tables. -/
def tableDocuments : List (List (String × Draft)) → List Document
  | [] => []
  | entries :: rest => .table (documents entries) :: tableDocuments rest

end

/-- Changes the entry with a key, or adds it at the end, unless the change is refused. -/
def alter (change : Option Draft → Option Draft) (key : String) : Entries → Option Entries
  | [] => (change none).map fun draft => [(key, draft)]
  | (k, draft) :: rest =>
    if k == key then (change (some draft)).map fun draft => (k, draft) :: rest
    else (alter change key rest).map ((k, draft) :: ·)

/-- Adds a value under a key that may be dotted. -/
def assign (document : Document) (entries : Entries) : List String → Option Entries
  | [] => none
  | [key] => alter (fun | none => some (.value document) | some _ => none) key entries
  | key :: rest => alter (fun
      | none => (assign document [] rest).map (.table .dotted)
      | some (.table .dotted inner) => (assign document inner rest).map (.table .dotted)
      | some (.table .implied inner) => (assign document inner rest).map (.table .implied)
      | some _ => none) key entries

/-- Changes the table that a header names. In a list of tables it is the last one. -/
def within (change : Entries → Option Entries) (entries : Entries) : List String → Option Entries
  | [] => change entries
  | key :: rest => alter (fun
      | none => (within change [] rest).map (.table .implied)
      | some (.table origin inner) => (within change inner rest).map (.table origin)
      | some (.tables items) => do
        let last ← items.getLast?
        let last ← within change last rest
        return .tables (items.dropLast ++ [last])
      | some (.value _) => none) key entries

/-- Opens the table of a header. -/
def openTable (entries : Entries) (path : List String) : Option Entries := do
  let key ← path.getLast?
  within (alter (fun
    | none => some (.table .headed [])
    | some (.table .implied inner) => some (.table .headed inner)
    | some _ => none) key) entries path.dropLast

/-- Opens one more table of a list. -/
def openItem (entries : Entries) (path : List String) : Option Entries := do
  let key ← path.getLast?
  within (alter (fun
    | none => some (.tables [[]])
    | some (.tables items) => some (.tables (items ++ [[]]))
    | some _ => none) key) entries path.dropLast

/-! ### Blanks and comments -/

/-- A space or a tab. -/
def isBlank (c : Char) : Bool :=
  c == ' ' || c == '\t'

/-- A character that may stand in a comment or a quoted text. -/
def isVisible (c : Char) : Bool :=
  c == '\t' || (0x20 ≤ c.toNat && c.toNat != 0x7f)

/-- Drops spaces and tabs. -/
def skipBlanks (cs : List Char) : List Char :=
  cs.dropWhile isBlank

/-- What follows the end of a line. -/
def newline? : List Char → Option (List Char)
  | '\n' :: cs => some cs
  | '\r' :: '\n' :: cs => some cs
  | _ => none

/-- Drops blanks and a comment. -/
def skipComment (cs : List Char) : List Char :=
  match skipBlanks cs with
  | '#' :: cs => cs.dropWhile isVisible
  | cs => cs

/-- Drops blanks, comments and ends of lines. -/
def skipGaps : Nat → List Char → List Char
  | 0, cs => cs
  | n + 1, cs =>
    let rest := skipComment cs
    match newline? rest with
    | some rest => skipGaps n rest
    | none => rest

/-- Drops blanks and ends of lines. -/
def skipEmptyLines : Nat → List Char → List Char
  | 0, cs => cs
  | n + 1, cs =>
    let rest := skipBlanks cs
    match newline? rest with
    | some rest => skipEmptyLines n rest
    | none => rest

/-- Nothing but a comment follows on the line. -/
def lineEnd? (cs : List Char) : Option (List Char) :=
  match skipComment cs with
  | [] => some []
  | rest => newline? rest

/-! ### Texts -/

/-- The value of a digit in a base of at most sixteen. -/
def digit? (base : Nat) (c : Char) : Option Nat :=
  let value :=
    if '0' ≤ c ∧ c ≤ '9' then c.toNat - '0'.toNat
    else if 'a' ≤ c ∧ c ≤ 'f' then c.toNat - 'a'.toNat + 10
    else if 'A' ≤ c ∧ c ≤ 'F' then c.toNat - 'A'.toNat + 10
    else base
  if value < base then some value else none

/-- The number that digits stand for. -/
def number? (base : Nat) (digits : List Char) : Option Nat := do
  if digits.isEmpty then none
  let values ← digits.mapM (digit? base)
  return values.foldl (fun n d => n * base + d) 0

/-- The character with the code that some digits give. -/
def codePoint? (size : Nat) (cs : List Char) : Option (Char × List Char) := do
  if cs.length < size then none
  let code ← number? 16 (cs.take size)
  if code.isValidChar then return (Char.ofNat code, cs.drop size) else none

/-- The character of an escape, from after the backslash. -/
def escape? : List Char → Option (Char × List Char)
  | 'b' :: cs => some ('\x08', cs)
  | 't' :: cs => some ('\t', cs)
  | 'n' :: cs => some ('\n', cs)
  | 'f' :: cs => some ('\x0c', cs)
  | 'r' :: cs => some ('\r', cs)
  | '"' :: cs => some ('"', cs)
  | '\\' :: cs => some ('\\', cs)
  | 'e' :: cs => some ('\x1b', cs)
  | 'x' :: cs => codePoint? 2 cs
  | 'u' :: cs => codePoint? 4 cs
  | 'U' :: cs => codePoint? 8 cs
  | _ => none

/-- A text up to its quote. -/
def quoted? : Nat → List Char → Option (List Char × List Char)
  | n + 1, '\\' :: cs => do
    let (c, cs) ← escape? cs
    let (text, cs) ← quoted? n cs
    return (c :: text, cs)
  | _, '"' :: cs => some ([], cs)
  | n + 1, c :: cs => do
    if !isVisible c then none
    let (text, cs) ← quoted? n cs
    return (c :: text, cs)
  | _, _ => none

/-- A text without escapes up to its quote. -/
def literal? (cs : List Char) : Option (List Char × List Char) :=
  let text := cs.takeWhile fun c => isVisible c && c != '\''
  match cs.drop text.length with
  | '\'' :: cs => some (text, cs)
  | _ => none

/-- The text of many lines ends here: three quotes or more. -/
def atClosing (quote : Char) (cs : List Char) : Bool :=
  3 ≤ (cs.takeWhile (· == quote)).length

/-- The end of a text of many lines. Up to two quotes before the last three belong to the text. -/
def closing? (quote : Char) (cs : List Char) : Option (List Char × List Char) :=
  let quotes := cs.takeWhile (· == quote)
  if quotes.length ≤ 5 then some (quotes.drop 3, cs.drop quotes.length) else none

/-- The end of a line inside a text. -/
def innerNewline? (cs : List Char) : Option (List Char × List Char) :=
  (newline? cs).map fun rest => (cs.take (cs.length - rest.length), rest)

/-- A text of many lines, up to its quotes. A backslash at the end of a line joins it to the next
character that is not blank. -/
def quotedLines? : Nat → List Char → Option (List Char × List Char)
  | 0, _ => none
  | n + 1, cs =>
    match atClosing '"' cs, innerNewline? cs, cs with
    | true, _, _ => closing? '"' cs
    | false, some (line, cs), _ => (quotedLines? n cs).map fun (text, cs) => (line ++ text, cs)
    | false, none, '\\' :: cs =>
      match newline? (skipBlanks cs) with
      | some rest => quotedLines? n (skipEmptyLines rest.length rest)
      | none => do
        let (c, cs) ← escape? cs
        let (text, cs) ← quotedLines? n cs
        return (c :: text, cs)
    | false, none, c :: cs =>
      if isVisible c then (quotedLines? n cs).map fun (text, cs) => (c :: text, cs) else none
    | false, none, [] => none

/-- A text of many lines without escapes, up to its quotes. -/
def literalLines? : Nat → List Char → Option (List Char × List Char)
  | 0, _ => none
  | n + 1, cs =>
    match atClosing '\'' cs, innerNewline? cs, cs with
    | true, _, _ => closing? '\'' cs
    | false, some (line, cs), _ => (literalLines? n cs).map fun (text, cs) => (line ++ text, cs)
    | false, none, c :: cs =>
      if isVisible c then (literalLines? n cs).map fun (text, cs) => (c :: text, cs) else none
    | false, none, [] => none

/-- Drops the end of a line right after the opening quotes. -/
def opened (cs : List Char) : List Char :=
  (newline? cs).getD cs

/-! ### Keys -/

/-- A character of a key without quotes. -/
def isKeyChar (c : Char) : Bool :=
  c.isAlphanum || c == '_' || c == '-'

/-- A key without dots. -/
def simpleKey? : List Char → Option (String × List Char)
  | '"' :: cs => (quoted? cs.length cs).map fun (text, cs) => (String.ofList text, cs)
  | '\'' :: cs => (literal? cs).map fun (text, cs) => (String.ofList text, cs)
  | cs =>
    let key := cs.takeWhile isKeyChar
    if key.isEmpty then none else some (String.ofList key, cs.drop key.length)

/-- A key with the blanks around it and around its dots. -/
def key? : Nat → List Char → Option (List String × List Char)
  | 0, _ => none
  | n + 1, cs => do
    let (key, cs) ← simpleKey? (skipBlanks cs)
    match skipBlanks cs with
    | '.' :: cs =>
      let (keys, cs) ← key? n cs
      return (key :: keys, cs)
    | cs => return ([key], cs)

/-! ### Numbers -/

/-- Digits between which there may be single underscores. -/
def digits? (word : List Char) : Option (List Char) :=
  let ends := word.head? == some '_' || word.getLast? == some '_'
  let doubled := (word.zip (word.drop 1)).any fun (a, b) => a == '_' && b == '_'
  if word.isEmpty || ends || doubled then none else some (word.filter (· != '_'))

/-- A whole number without its sign, in decimal digits without a leading zero. -/
def decimal? (word : List Char) : Option (List Char) := do
  let digits ← digits? word
  if !digits.all Char.isDigit then none
  if 1 < digits.length ∧ digits.head? = some '0' then none
  return digits

/-- A whole number that 128 bits can hold, with or without a sign. -/
def bounded? (value : Int) : Option Document :=
  if -Int.pow 2 127 ≤ value ∧ value < Int.pow 2 128 then some (.integer value) else none

/-- Splits a word at the first character that is wanted. -/
def splitAt? (wanted : Char → Bool) (word : List Char) : Option (List Char × List Char) :=
  let front := word.takeWhile (!wanted ·)
  match word.drop front.length with
  | _ :: back => some (front, back)
  | [] => none

/-- A sign and what follows it. -/
def signed : List Char → Bool × List Char
  | '-' :: cs => (true, cs)
  | '+' :: cs => (false, cs)
  | cs => (false, cs)

/-- The exponent of a number, leading zeros allowed. -/
def exponent? (word : List Char) : Option Int := do
  let (negative, digits) := signed word
  let digits ← digits? digits
  let value ← number? 10 digits
  return if negative then -value else value

/-- The number with these digits and this power of ten. Exponents beyond all numbers are cut. -/
def scaled (whole fraction : List Char) (exponent : Int) : Binary64 :=
  let digits := whole ++ fraction
  let limit : Int := 400 + digits.length
  let power := max (-limit) (min limit exponent) - fraction.length
  let value := Binary64.digitsValue digits
  if 0 ≤ power then Binary64.ofRatio (value * Nat.pow 10 power.toNat) 1
  else Binary64.ofRatio value (Nat.pow 10 (-power).toNat)

/-- A number that is not too large. -/
def finite? : Binary64 → Option Binary64
  | .infinite _ => none
  | value => some value

/-- A number with a fraction or an exponent, without its sign. -/
def fractional? (word : List Char) : Option Binary64 := do
  let (mantissa, power) := (splitAt? (fun c => c == 'e' || c == 'E') word).elim (word, none)
    fun (front, back) => (front, some back)
  let exponent ← power.elim (some 0) exponent?
  match splitAt? (· == '.') mantissa with
  | some (whole, fraction) =>
    let whole ← decimal? whole
    let fraction ← digits? fraction
    if fraction.all Char.isDigit then finite? (scaled whole fraction exponent) else none
  | none =>
    let whole ← decimal? mantissa
    if power.isSome then finite? (scaled whole [] exponent) else none

/-- A whole number in another base, without the sign of the base. -/
def based? (base : Nat) (word : List Char) : Option Document := do
  let digits ← digits? word
  let value ← number? base digits
  bounded? value

/-- A value without quotes and brackets. -/
def plain? (word : List Char) : Option Document :=
  match word with
  | ['t', 'r', 'u', 'e'] => some (.boolean true)
  | ['f', 'a', 'l', 's', 'e'] => some (.boolean false)
  | '0' :: 'x' :: digits => based? 16 digits
  | '0' :: 'o' :: digits => based? 8 digits
  | '0' :: 'b' :: digits => based? 2 digits
  | _ =>
    let (negative, size) := signed word
    match size, decimal? size with
    | ['i', 'n', 'f'], _ => some (.decimal (.infinite negative))
    | _, some digits =>
      let value : Int := Binary64.digitsValue digits
      bounded? (if negative then -value else value)
    | _, none =>
      (fractional? size).map fun value => .decimal (if negative then value.neg else value)

/-- A character of such a value. -/
def isPlainChar (c : Char) : Bool :=
  c.isAlphanum || c == '_' || c == '-' || c == '+' || c == '.'

/-! ### Values -/

/-- How deep lists and tables in line may stand in one another. -/
def nestingLimit : Nat := 80

mutual

/-- A value, in which lists and tables may stand as deep as `depth`. -/
def value? : Nat → Nat → List Char → Option (Document × List Char)
  | 0, _, _ => none
  | n + 1, depth, cs =>
    match cs, depth with
    | '"' :: '"' :: '"' :: cs, _ =>
      (quotedLines? (cs.length + 1) (opened cs)).map fun (text, cs) =>
        (.text (String.ofList text), cs)
    | '"' :: cs, _ => (quoted? cs.length cs).map fun (text, cs) => (.text (String.ofList text), cs)
    | '\'' :: '\'' :: '\'' :: cs, _ =>
      (literalLines? (cs.length + 1) (opened cs)).map fun (text, cs) =>
        (.text (String.ofList text), cs)
    | '\'' :: cs, _ => (literal? cs).map fun (text, cs) => (.text (String.ofList text), cs)
    | '[' :: cs, depth + 1 => (items? n depth cs).map fun (items, cs) => (.list items, cs)
    | '\x7b' :: cs, depth + 1 =>
      (pairs? n depth [] cs).map fun (entries, cs) => (.table (documents entries), cs)
    | cs, _ =>
      let word := cs.takeWhile isPlainChar
      (plain? word).map fun document => (document, cs.drop word.length)

/-- The items of a list, up to its bracket. A comma may follow the last one. -/
def items? : Nat → Nat → List Char → Option (List Document × List Char)
  | 0, _, _ => none
  | n + 1, depth, cs =>
    match skipGaps cs.length cs with
    | ']' :: cs => some ([], cs)
    | cs => do
      let (item, cs) ← value? n depth cs
      match skipGaps cs.length cs with
      | ',' :: cs =>
        let (items, cs) ← items? n depth cs
        return (item :: items, cs)
      | ']' :: cs => return ([item], cs)
      | _ => none

/-- The entries of a table in line, up to its brace. A comma may follow the last one. -/
def pairs? : Nat → Nat → Entries → List Char → Option (Entries × List Char)
  | 0, _, _, _ => none
  | n + 1, depth, entries, cs =>
    match skipGaps cs.length cs with
    | '\x7d' :: cs => some (entries, cs)
    | cs => do
      let (keys, cs) ← key? cs.length cs
      match cs with
      | '=' :: cs =>
        let (document, cs) ← value? n depth (skipBlanks cs)
        let entries ← assign document entries keys
        match skipGaps cs.length cs with
        | ',' :: cs => pairs? n depth entries cs
        | '\x7d' :: cs => return (entries, cs)
        | _ => none
      | _ => none

end

/-! ### Documents -/

/-- Reads the lines of a document into the table that the last header named. -/
def lines? : Nat → List String → Entries → List Char → Option Entries
  | 0, _, _, _ => none
  | n + 1, current, entries, cs =>
    match skipGaps cs.length cs with
    | [] => some entries
    | '[' :: '[' :: cs => do
      let (path, cs) ← key? cs.length cs
      match cs with
      | ']' :: ']' :: cs => lines? n path (← openItem entries path) (← lineEnd? cs)
      | _ => none
    | '[' :: cs => do
      let (path, cs) ← key? cs.length cs
      match cs with
      | ']' :: cs => lines? n path (← openTable entries path) (← lineEnd? cs)
      | _ => none
    | cs => do
      let (keys, cs) ← key? cs.length cs
      match cs with
      | '=' :: cs =>
        let (document, cs) ← value? (2 * cs.length + 2) nestingLimit (skipBlanks cs)
        let entries ← within (assign document · keys) entries current
        lines? n current entries (← lineEnd? cs)
      | _ => none

/-- A text without the mark of its encoding. -/
def withoutMark : List Char → List Char
  | '\uFEFF' :: cs => cs
  | cs => cs

/-- Reads a document. -/
def read? (text : String) : Option Document :=
  let cs := withoutMark text.toList
  (lines? (cs.length + 1) [] [] cs).map fun entries => .table (documents entries)

/-! ### Printing -/

/-- A hexadecimal digit. -/
def hexDigit (n : Nat) : Char :=
  if n < 10 then Char.ofNat ('0'.toNat + n) else Char.ofNat ('A'.toNat + (n - 10))

/-- A character inside quotes. -/
def writeChar (c : Char) : String :=
  if c == '"' then "\\\""
  else if c == '\\' then "\\\\"
  else if isVisible c then c.toString
  else "\\u00" ++ String.ofList [hexDigit (c.toNat / 16), hexDigit (c.toNat % 16)]

/-- A text in quotes. -/
def writeText (text : String) : String :=
  "\"" ++ String.join (text.toList.map writeChar) ++ "\""

mutual

/-- A value in line. -/
def writeValue : Document → String
  | .text value => writeText value
  | .integer value => toString value
  | .decimal value => Binary64.write Binary64.marked value
  | .boolean value => if value then "true" else "false"
  | .list items => "[" ++ ", ".intercalate (writeItems items) ++ "]"
  | .table entries => "\x7b " ++ ", ".intercalate (writePairs entries) ++ " \x7d"

/-- The items of a list. -/
def writeItems : List Document → List String
  | [] => []
  | item :: rest => writeValue item :: writeItems rest

/-- The entries of a table. -/
def writePairs : List (String × Document) → List String
  | [] => []
  | (key, value) :: rest => (writeText key ++ " = " ++ writeValue value) :: writePairs rest

end

/-- The document is a table. -/
def isTable : Document → Bool
  | .table _ => true
  | _ => false

/-- The value is written under headers of its own. -/
def hasHeader : Document → Bool
  | .table _ => true
  | .list items => !items.isEmpty && items.all isTable
  | _ => false

/-- The entries that are written in line, each on a line of its own. -/
def writeLines (entries : List (String × Document)) : String :=
  String.join ((writePairs (entries.filter (!hasHeader ·.2))).map (· ++ "\n"))

/-- The keys of a header. -/
def writePath (path : List String) : String :=
  ".".intercalate (path.map writeText)

mutual

/-- The entries that have headers, in the table with this path. -/
def writeTables (path : List String) : List (String × Document) → String
  | [] => ""
  | (key, .table entries) :: rest =>
    "[" ++ writePath (path ++ [key]) ++ "]\n" ++ writeLines entries ++
      writeTables (path ++ [key]) entries ++ writeTables path rest
  | (key, .list items) :: rest =>
    (if hasHeader (.list items) then writeTableItems (path ++ [key]) items else "") ++
      writeTables path rest
  | _ :: rest => writeTables path rest

/-- The tables of a list with this path. -/
def writeTableItems (path : List String) : List Document → String
  | [] => ""
  | .table entries :: rest =>
    "[[" ++ writePath path ++ "]]\n" ++ writeLines entries ++ writeTables path entries ++
      writeTableItems path rest
  | _ :: rest => writeTableItems path rest

end

/-- The text of a document. Only a table is one; of another value nothing is written. -/
def write : Document → String
  | .table entries => writeLines entries ++ writeTables [] entries
  | _ => ""

end Projection.Toml
