import Projection.Path

/-!
# Command lines

The words of a command line are taken from left to right. An option that waits for its value is
settled by the next word, so a word that is refused for itself is refused before an option in front
of it that is given twice or has no value. After `--` every word is a source directory.
-/

namespace Projection

/-- What a command line asks for. -/
structure Arguments where
  sourceDirs : List Path
  schema : Path
  output : Option Path
  config : Option Path
  mutable : Bool
  logLevel : String
  check : Bool
  deriving DecidableEq, Repr

namespace CommandLine

/-- Why a command line does not start a run. -/
inductive Stop where
  | schemaMissing
  | unknownWord
  | repeated
  | valueMissing
  | valueUnwanted
  | help
  | version
  deriving DecidableEq, Repr

/-- An option with a value. -/
inductive Setting where
  | schema
  | output
  | config
  | logLevel
  deriving DecidableEq, Repr

/-- An option without a value. -/
inductive Switch where
  | mutable
  | check
  deriving DecidableEq, Repr

/-- What the name of an option stands for. -/
inductive Meaning where
  | setting (s : Setting)
  | switch (s : Switch)
  | stop (s : Stop)
  deriving DecidableEq, Repr

/-- The meaning of a long name. -/
def Meaning.ofName? : String → Option Meaning
  | "schema" => some (.setting .schema)
  | "output" => some (.setting .output)
  | "config" => some (.setting .config)
  | "log-level" => some (.setting .logLevel)
  | "mutable" => some (.switch .mutable)
  | "check" => some (.switch .check)
  | "help" => some (.stop .help)
  | "version" => some (.stop .version)
  | _ => none

/-- The meaning of a letter. -/
def Meaning.ofLetter? : Char → Option Meaning
  | 's' => some (.setting .schema)
  | 'o' => some (.setting .output)
  | 'c' => some (.setting .config)
  | 'h' => some (.stop .help)
  | 'V' => some (.stop .version)
  | _ => none

/-- A word as it looks. -/
inductive Word where
  /-- Two dashes. -/
  | separator
  /-- A name after two dashes, and what follows an equals sign. -/
  | long (name : String) (value : Option String)
  /-- A letter after a dash, and what is attached to it. -/
  | short (letter : Char) (value : Option String)
  | plain (text : String)
  deriving DecidableEq, Repr

/-- What is attached to a letter. An equals sign in front of it does not count. -/
def attached : List Char → Option String
  | [] => none
  | '=' :: rest => some (String.ofList rest)
  | rest => some (String.ofList rest)

/-- What a word looks like. A single dash is plain. -/
def Word.ofText (text : String) : Word :=
  match text.toList with
  | ['-', '-'] => separator
  | '-' :: '-' :: rest =>
    let name := rest.takeWhile (· != '=')
    long (String.ofList name) (match rest.drop name.length with
      | _ :: value => some (String.ofList value)
      | [] => none)
  | '-' :: letter :: rest => short letter (attached rest)
  | _ => plain text

/-- What the words so far have said. -/
structure Progress where
  values : List (Setting × String) := []
  switches : List Switch := []
  sourceDirs : List Path := []
  /-- The last option, until a later word settles it, and its value if there is one. -/
  pending : Option (Setting × Option String) := none
  /-- All words that follow are source directories. -/
  separated : Bool := false
  deriving DecidableEq, Repr

namespace Progress

/-- The value of an option. -/
def value? (p : Progress) (s : Setting) : Option String :=
  (p.values.find? (·.1 == s)).map (·.2)

/-- Gives an option its value. -/
def assign (p : Progress) (s : Setting) (value : String) : Except Stop Progress :=
  if (p.value? s).isSome then .error .repeated
  else .ok { p with values := p.values ++ [(s, value)] }

/-- Settles the option that waits. -/
def settle (p : Progress) : Except Stop Progress :=
  match p.pending with
  | none => .ok p
  | some (_, none) => .error .valueMissing
  | some (s, some value) => { p with pending := none }.assign s value

/-- Takes an option with what is attached to it. -/
def takeOption (p : Progress) (meaning : Meaning) (value : Option String) :
    Except Stop Progress := do
  let p ← p.settle
  match meaning, value with
  | .setting s, some value => p.assign s value
  | .setting s, none => return { p with pending := some (s, none) }
  | .switch s, _ =>
    if p.switches.contains s then .error .repeated
    else return { p with switches := s :: p.switches }
  | .stop s, _ => .error s

/-- Takes a word that is not an option: the value that an option waits for, or a source
directory. -/
def takePlain (p : Progress) (text : String) : Except Stop Progress := do
  match p.pending, p.separated with
  | some (s, none), false => return { p with pending := some (s, some text) }
  | _, _ =>
    let p ← p.settle
    return { p with sourceDirs := p.sourceDirs ++ [text] }

/-- Takes one word. -/
def take (p : Progress) (text : String) : Except Stop Progress :=
  if p.separated then p.takePlain text
  else
    match Word.ofText text with
    | .separator => .ok { p with separated := true }
    | .plain text => p.takePlain text
    | .short letter value =>
      match Meaning.ofLetter? letter with
      | some meaning => p.takeOption meaning value
      | none => .error .unknownWord
    | .long name value =>
      match Meaning.ofName? name, value with
      | none, _ => .error .unknownWord
      | some (.setting s), value => p.takeOption (.setting s) value
      | some _, some _ => .error .valueUnwanted
      | some meaning, none => p.takeOption meaning none

/-- What was asked for, once all words are taken. -/
def finish (p : Progress) : Except Stop Arguments := do
  let p ← p.settle
  match p.value? .schema with
  | none => .error .schemaMissing
  | some schema =>
    return {
      sourceDirs := p.sourceDirs
      schema
      output := p.value? .output
      config := p.value? .config
      mutable := p.switches.contains .mutable
      logLevel := (p.value? .logLevel).getD "info"
      check := p.switches.contains .check }

end Progress

/-- Reads the words of a command line. -/
def read (words : List String) : Except Stop Arguments := do
  let p ← words.foldlM Progress.take {}
  p.finish

end CommandLine

end Projection
