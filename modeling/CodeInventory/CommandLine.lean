import CodeInventory.Chunker
import CodeInventory.CommandLine.Arguments
import CodeInventory.CommandLine.LogFilter
import CodeInventory.Config.Format
import CodeInventory.Inventory.Format
import CodeInventory.Json.Printer

set_option autoImplicit false

namespace CodeInventory.CommandLine

-- What a run can see, and the texts that other programs make: the time before each line of the log,
-- what the reader of TOML says of a document that it refuses, and the note on a panic.
structure Surroundings where
  read : FileReader
  stdin : List UInt8
  logging : Option String
  clock : Nat → String
  parse : SyntaxParser
  tomlFault : String → String
  panicNote : Panic → String

structure Output where
  exit : Nat
  stdout : String
  stderr : String
deriving DecidableEq, Repr

inductive Failure where
  | configUnreadable (path : List UInt8) (cause : FileFault)
  | configMalformed (path : List UInt8) (cause : String)
  | languageRequired
  | languageUndetected (path : List UInt8)
  | sourceUnreadable (path : List UInt8) (cause : FileFault)
  | stdinUnreadable (cause : FileFault)
  | chunking (shown : String) (cause : Fault)
  | refused (fault : Fault)
  | aborted (panic : Panic) (note : String)
deriving DecidableEq, Repr

namespace Failure

def ofHalt (surroundings : Surroundings) (shown : String) : Halt → Failure
  | .fault cause => .chunking shown cause
  | .panic panic => .aborted panic (surroundings.panicNote panic)

def exit : Failure → Nat
  | .aborted .. => 101
  | _ => 1

def message : Failure → String
  | .configUnreadable path _ => "Failed to read config " ++ Text.decodeLenient path
  | .configMalformed path _ => "Invalid config " ++ Text.decodeLenient path
  | .languageRequired => "--language is required when reading from stdin"
  | .languageUndetected path =>
      "Cannot detect language of " ++ Text.decodeLenient path ++ "; pass --language"
  | .sourceUnreadable path _ => "Failed to read " ++ Text.decodeLenient path
  | .stdinUnreadable _ => "Failed to read source from stdin"
  | .chunking shown _ => "Failed to chunk " ++ shown
  | .refused fault => fault.message
  | .aborted _ note => note

def cause? : Failure → Option String
  | .configUnreadable _ cause => some cause.message
  | .configMalformed _ cause => some cause
  | .sourceUnreadable _ cause => some cause.message
  | .stdinUnreadable cause => some cause.message
  | .chunking _ cause => some cause.message
  | _ => none

def report (failure : Failure) : String :=
  match failure with
  | .aborted _ note => note
  | failure =>
      let head := "Error: " ++ failure.message ++ "\n"
      match failure.cause? with
      | none => head
      | some cause => head ++ "\nCaused by:\n    " ++ Text.hang cause ++ "\n"

end Failure

def stdinPath : List UInt8 := Text.octets "-"

def loadConfig (surroundings : Surroundings) : Option (List UInt8) → Except Failure Config
  | none => .ok .standard
  | some path =>
      match surroundings.read.text path with
      | .error cause => .error (.configUnreadable path cause)
      | .ok text =>
          match Config.ofToml? text with
          | none => .error (.configMalformed path (surroundings.tomlFault text))
          | some config => .ok config

def configOf (surroundings : Surroundings) (invocation : Invocation) : Except Failure Config := do
  let config ← loadConfig surroundings invocation.config
  .ok (if invocation.strict then config.refusingCollisions else config)

def languageOf (invocation : Invocation) : Except Failure Language :=
  match invocation.language with
  | some identifier =>
      match Language.ofIdentifier? identifier with
      | some language => .ok language
      | none => .error (.refused (.unsupportedLanguage identifier))
  | none =>
      if invocation.path = stdinPath then .error .languageRequired
      else if Path.language invocation.path = .unknown then
        .error (.languageUndetected invocation.path)
      else .ok (Path.language invocation.path)

def sourceOf (surroundings : Surroundings) (path : List UInt8) : Except Failure String :=
  if path = stdinPath then
    match Text.decodeStrict? surroundings.stdin with
    | some text => .ok text
    | none => .error (.stdinUnreadable .notUtf8)
  else (surroundings.read.text path).mapError (.sourceUnreadable path)

structure Job where
  chunker : Chunker
  language : Language
  source : String

def prepare (surroundings : Surroundings) (invocation : Invocation) : Except Failure Job := do
  let config ← configOf surroundings invocation
  let chunker ← (Chunker.ofConfig config).mapError .refused
  let language ← languageOf invocation
  let source ← sourceOf surroundings invocation.path
  .ok ⟨chunker, language, source⟩

structure Run where
  result : Except Failure Inventory
  events : List Event

def run (surroundings : Surroundings) (invocation : Invocation) : Run :=
  match prepare surroundings invocation with
  | .error failure => ⟨.error failure, []⟩
  | .ok job =>
      let shown := Path.shown invocation.path
      let survey := job.chunker.ofText surroundings.parse job.source job.language
      ⟨survey.result.mapError (.ofHalt surroundings shown),
        .started shown job.language :: survey.events⟩

-- `--quiet` and `--verbose` set the level for all targets, `--quiet` first. Otherwise the
-- specification counts, and without one the level is that of information.
def filterOf (logging : Option String) (invocation : Invocation) : LogFilter :=
  let written := (LogFilter.read (logging.getD "info")).1
  let adjusted :=
    if invocation.quiet then LogFilter.set ⟨"", 2⟩ written
    else if invocation.verbose then LogFilter.set ⟨"", 4⟩ written
    else written
  adjusted.orErrors

def filterWarnings (logging : Option String) : String :=
  String.join ((LogFilter.read (logging.getD "info")).2.map fun piece =>
    "warning: invalid logging spec '" ++ piece ++ "', ignoring it\n")

def logText (clock : Nat → String) (filter : LogFilter) (events : List Event) : String :=
  String.join ((events.filter filter.shows).zipIdx.map fun (event, line) =>
    logLine (clock line) event ++ "\n")

def render (pretty : Bool) (inventory : Inventory) : String :=
  if pretty then inventory.toJson.pretty else inventory.toJson.compact

def perform (surroundings : Surroundings) (invocation : Invocation) : Output :=
  let done := run surroundings invocation
  let log :=
    filterWarnings surroundings.logging ++
      logText surroundings.clock (filterOf surroundings.logging invocation) done.events
  match done.result with
  | .error failure => ⟨failure.exit, "", log ++ failure.report⟩
  | .ok inventory =>
      let stats :=
        if invocation.stats then
          Path.shown invocation.path ++ ": " ++ inventory.tally.summary ++ "\n"
        else ""
      ⟨0, render invocation.pretty inventory ++ "\n", log ++ stats⟩

def commandName : String := "kaizen-chunk"

def version : String := "0.1.0"

def usage : String := "Usage: " ++ commandName ++ " [OPTIONS] <PATH>"

def helpText : String :=
  "\n".intercalate
    ["Split a source file into imports, functions, classes and leftover blocks",
      "",
      usage,
      "",
      "Arguments:",
      "  <PATH>  Source file to chunk (`-` reads stdin)",
      "",
      "Options:",
      "  -l, --language <LANGUAGE>  Language name (python, javascript, typescript, tsx, rust); " ++
        "detected from the extension if omitted",
      "      --pretty               Pretty-print the JSON output",
      "      --stats                Print a category summary to stderr",
      "      --strict               Fail on duplicate names instead of keeping the last one",
      "      --config <CONFIG>      TOML file with chunker configuration",
      "  -v, --verbose              Enable verbose logging",
      "      --quiet                Quiet mode: log only warnings/errors " ++
        "(stdout is reserved for JSON)",
      "  -h, --help                 Print help",
      "  -V, --version              Print version",
      ""]

def Refusal.message : Refusal → String
  | .help => ""
  | .version => ""
  | .unexpectedArgument text => "unexpected argument '" ++ text ++ "' found"
  | .unexpectedValue value shown =>
      "unexpected value '" ++ value ++ "' for '" ++ shown ++ "' found; no more were expected"
  | .missingValue shown => "a value is required for '" ++ shown ++ "' but none was supplied"
  | .repeated shown => "the argument '" ++ shown ++ "' cannot be used multiple times"
  | .notUtf8 => "invalid UTF-8 was detected in one or more arguments"
  | .missingPath => "the following required arguments were not provided:"

def refuse : Refusal → Output
  | .help => ⟨0, helpText, ""⟩
  | .version => ⟨0, commandName ++ " " ++ version ++ "\n", ""⟩
  | refusal => ⟨2, "", "error: " ++ refusal.message ++ "\n"⟩

def execute (surroundings : Surroundings) (arguments : List (List UInt8)) : Output :=
  match Invocation.ofArguments arguments with
  | .error refusal => refuse refusal
  | .ok invocation => perform surroundings invocation

end CodeInventory.CommandLine
