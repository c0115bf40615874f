import Projection.Notice
import Projection.Run

/-!
# The command

The outer layer of the program: it takes the part of the disk that a run can see into a file tree,
lets the run work on it, writes the files that are new, and shows what went wrong.
-/

namespace Projection.Command

/-- How the program is called. -/
def usage : String :=
  "Usage: prism [OPTIONS] --schema <SCHEMA> [DTO_DIRS]...\n\n" ++
  "Arguments:\n" ++
  "  [DTO_DIRS]...  Directories searched recursively for DTO sources\n\n" ++
  "Options:\n" ++
  "  -s, --schema <SCHEMA>        Path to the schema catalog (TOML)\n" ++
  "  -o, --output <OUTPUT>        Directory for generated files (overrides `output.directory`)\n" ++
  "  -c, --config <CONFIG>        Path to configuration file (TOML)\n" ++
  "      --mutable                Make DTO types mutable unless they request otherwise\n" ++
  "      --log-level <LOG_LEVEL>  Log level (off, error, warn, info, debug, trace) " ++
  "[default: info]\n" ++
  "      --check                  Compile only, without writing any files\n" ++
  "  -h, --help                   Print help\n" ++
  "  -V, --version                Print version\n"

/-- Why a command line was refused, in words. -/
def stopText : CommandLine.Stop → String
  | .schemaMissing => "the option --schema is required"
  | .unknownWord => "an option is not known"
  | .repeated => "an option is given more than once"
  | .valueMissing => "an option has no value"
  | .valueUnwanted => "an option does not take a value"
  | .help => usage
  | .version => "prism 0.1.0"

/-- A notice as lines of text. -/
def noticeText (notice : Notice) : String :=
  let code := (notice.code?.map (· ++ ": ")).getD ""
  let labels := notice.labels.map fun label =>
    "\n  at " ++ label.span.text ++ ": " ++ label.message
  let help := (notice.help?.map ("\n  help: " ++ ·)).getD ""
  code ++ notice.text ++ String.join labels ++ help

/-- The levels of messages, in any case of letters. At the first one nothing is shown. -/
def logLevels : List String :=
  ["off", "error", "warn", "info", "debug", "trace"]

/-- Takes what stands at a path, and all below it, into a tree. -/
partial def observe (tree : FileTree) (path : Path) : IO FileTree := do
  let target := (← IO.currentDir) / path
  if path.isEmpty || !(← target.pathExists) then return tree
  if ← target.isDir then
    let entries ← target.readDir
    entries.foldlM (fun tree entry => observe tree (Path.join path entry.fileName))
      (tree.place path .directory)
  else return tree.place path (.file (← IO.FS.readBinFile target))

/-- Takes what stands at some paths into a tree. -/
def observeAll (tree : FileTree) (paths : List Path) : IO FileTree :=
  paths.foldlM observe tree

/-- The configuration file of the system. -/
def systemConfig : IO (Option Path) := do
  let home ← IO.getEnv "HOME"
  let base := match ← IO.getEnv "XDG_CONFIG_HOME" with
    | some directory =>
      if Path.isAbsolute directory then some directory else home.map (Path.join · ".config")
    | none => home.map (Path.join · ".config")
  return base.map (Path.join · Run.projectConfig)

/-- Writes the files of a tree that are not in another one. -/
def writeNew (before after : FileTree) : IO Unit := do
  for (place, content) in after.files do
    let same := match before.find? place with
      | some (.file old) => old == content
      | _ => false
    if !same then
      let path := "/" ++ "/".intercalate place
      IO.FS.createDirAll ("/" ++ "/".intercalate place.dropLast)
      IO.FS.writeBinFile path content

/-- The part of the disk that a run can see. -/
def visibleTree (args : Arguments) (system : Option Path) : IO FileTree := do
  let here := (← IO.currentDir).toString
  let configs := Run.projectConfig :: args.config.toList ++ system.toList
  let tree ← observeAll (.seenFrom here) (args.schema :: configs)
  match Run.settings tree args.config system with
  | .error _ => return tree
  | .ok settings =>
    let settings := Run.override settings args
    observeAll tree (settings.directory :: settings.sourceDirs)

/-- Runs what a command line asks for and answers the exit code. -/
def execute (args : Arguments) : IO UInt32 := do
  let level := args.logLevel.toLower
  if !logLevels.contains level then
    IO.eprintln ("Invalid log level: " ++ args.logLevel ++ ". Using 'warn' instead.")
  let system ← systemConfig
  let tree ← visibleTree args system
  let (result, after) := Run.run tree args system
  writeNew tree after
  match result with
  | .ok _ => return 0
  | .error fault =>
    if level != "off" then
      for notice in fault.notices do
        IO.eprintln (noticeText notice)
    return 1

end Projection.Command

/-- The program. -/
def main (words : List String) : IO UInt32 := do
  match Projection.CommandLine.read words with
  | .ok args => Projection.Command.execute args
  | .error .help => IO.print (Projection.Command.stopText .help); return 0
  | .error .version => IO.println (Projection.Command.stopText .version); return 0
  | .error stop => IO.eprintln ("error: " ++ Projection.Command.stopText stop); return 2
