import CodeInventory.Text.Utf8

set_option autoImplicit false

namespace CodeInventory.CommandLine

inductive Flag where
  | pretty
  | stats
  | strict
  | verbose
  | quiet
deriving DecidableEq, Repr

inductive Setting where
  | language
  | config
deriving DecidableEq, Repr

inductive Switch where
  | flag (flag : Flag)
  | setting (setting : Setting)
  | help
  | version
deriving DecidableEq, Repr

def longNames : List (String × Switch) :=
  [("language", .setting .language), ("pretty", .flag .pretty), ("stats", .flag .stats),
    ("strict", .flag .strict), ("config", .setting .config), ("verbose", .flag .verbose),
    ("quiet", .flag .quiet), ("help", .help), ("version", .version)]

def shortNames : List (Char × Switch) :=
  [('l', .setting .language), ('v', .flag .verbose), ('h', .help), ('V', .version)]

def Flag.shown : Flag → String
  | .pretty => "--pretty"
  | .stats => "--stats"
  | .strict => "--strict"
  | .verbose => "--verbose"
  | .quiet => "--quiet"

def Setting.shown : Setting → String
  | .language => "--language <LANGUAGE>"
  | .config => "--config <CONFIG>"

inductive Refusal where
  | help
  | version
  | unexpectedArgument (text : String)
  | unexpectedValue (value shown : String)
  | missingValue (shown : String)
  | repeated (shown : String)
  | notUtf8
  | missingPath
deriving DecidableEq, Repr

structure Invocation where
  path : List UInt8
  language : Option String
  config : Option (List UInt8)
  pretty : Bool
  stats : Bool
  strict : Bool
  verbose : Bool
  quiet : Bool
deriving DecidableEq, Repr

-- An option's value and the path are settled when the next argument that is known begins, or at the
-- end. An argument that is not known is reported at once, before anything that is still unsettled.
inductive Unsettled where
  | setting (setting : Setting) (value : Option (List UInt8))
  | path (value : List UInt8)
deriving DecidableEq, Repr

structure Reading where
  flags : List Flag
  language : Option String
  config : Option (List UInt8)
  path : Option (List UInt8)
  unsettled : Option Unsettled
  -- Whether `--` was read, after which every argument is a path.
  pathsOnly : Bool

namespace Reading

def start : Reading :=
  ⟨[], none, none, none, none, false⟩

def setValue (reading : Reading) (setting : Setting) (value : List UInt8) :
    Except Refusal Reading :=
  match setting with
  | .language =>
      if reading.language.isSome then .error (.repeated setting.shown)
      else
        match Text.decodeStrict? value with
        | none => .error .notUtf8
        | some text => .ok { reading with language := some text }
  | .config =>
      if reading.config.isSome then .error (.repeated setting.shown)
      else if value = [] then .error (.missingValue setting.shown)
      else .ok { reading with config := some value }

def settle (reading : Reading) : Except Refusal Reading :=
  let cleared := { reading with unsettled := none }
  match reading.unsettled with
  | none => .ok cleared
  | some (.setting setting none) => .error (.missingValue setting.shown)
  | some (.setting setting (some value)) => cleared.setValue setting value
  | some (.path value) =>
      if value = [] then .error (.missingValue "<PATH>")
      else .ok { cleared with path := some value }

def setFlag (reading : Reading) (flag : Flag) : Except Refusal Reading := do
  let settled ← reading.settle
  if settled.flags.elem flag then .error (.repeated flag.shown)
  else .ok { settled with flags := settled.flags ++ [flag] }

def setSetting (reading : Reading) (setting : Setting) (attached : Option (List UInt8)) :
    Except Refusal Reading := do
  let settled ← reading.settle
  match attached with
  | some value => settled.setValue setting value
  | none => .ok { settled with unsettled := some (.setting setting none) }

def long (reading : Reading) (name : List UInt8) (attached : Option (List UInt8)) :
    Except Refusal Reading :=
  match (Text.decodeStrict? name).bind fun text => longNames.lookup text, attached with
  | none, _ => .error (.unexpectedArgument ("--" ++ Text.decodeLenient name))
  | some (.setting setting), _ => reading.setSetting setting attached
  | some (.flag flag), some value =>
      .error (.unexpectedValue (Text.decodeLenient value) flag.shown)
  | some (.flag flag), none => reading.setFlag flag
  | some .help, some value => .error (.unexpectedValue (Text.decodeLenient value) "--help")
  | some .version, some value => .error (.unexpectedValue (Text.decodeLenient value) "--version")
  | some .help, none => do
      let _ ← reading.settle
      .error .help
  | some .version, none => do
      let _ ← reading.settle
      .error .version

-- The value attached to a short option; one equals sign before it does not count.
def attachedValue : List UInt8 → Option (List UInt8)
  | [] => none
  | octet :: value => if octet = 0x3D then some value else some (octet :: value)

-- A letter that is no option, or all that is left when no letter begins there.
def unknownLetter (octets : List UInt8) : String :=
  match Text.decode octets with
  | some letter :: _ => String.ofList ['-', letter]
  | _ => "-" ++ Text.decodeLenient octets

def short (reading : Reading) : List UInt8 → Except Refusal Reading
  | [] => .ok reading
  | octet :: rest =>
      match shortNames.lookup (Char.ofNat octet.toNat) with
      | none => .error (.unexpectedArgument (unknownLetter (octet :: rest)))
      | some (.setting setting) => reading.setSetting setting (attachedValue rest)
      | some (.flag flag) => do
          let settled ← reading.setFlag flag
          settled.short rest
      | some .help => do
          let _ ← reading.settle
          .error .help
      | some .version => do
          let _ ← reading.settle
          .error .version

def addPath (reading : Reading) (argument : List UInt8) : Except Refusal Reading := do
  match reading.path, reading.unsettled with
  | some _, _ => .error (.unexpectedArgument (Text.decodeLenient argument))
  | none, some (.path _) => .error (.unexpectedArgument (Text.decodeLenient argument))
  | none, _ => do
      let settled ← reading.settle
      .ok { settled with unsettled := some (.path argument) }

-- An argument that is no option: the value of the option before it, or the path.
def plain (reading : Reading) (argument : List UInt8) : Except Refusal Reading :=
  match reading.unsettled with
  | some (.setting setting none) =>
      .ok { reading with unsettled := some (.setting setting (some argument)) }
  | _ => reading.addPath argument

def next (reading : Reading) (argument : List UInt8) : Except Refusal Reading :=
  if reading.pathsOnly then reading.addPath argument
  else
    match argument with
    | [0x2D, 0x2D] => .ok { reading with pathsOnly := true }
    | 0x2D :: 0x2D :: rest =>
        let name := rest.takeWhile (· ≠ 0x3D)
        match rest.dropWhile (· ≠ 0x3D) with
        | [] => reading.long name none
        | _ :: value => reading.long name (some value)
    | 0x2D :: letter :: rest => reading.short (letter :: rest)
    | _ => reading.plain argument

end Reading

def Invocation.ofArguments (arguments : List (List UInt8)) : Except Refusal Invocation := do
  let reading ← (← arguments.foldlM Reading.next Reading.start).settle
  match reading.path with
  | none => .error .missingPath
  | some path =>
      .ok { path
            language := reading.language
            config := reading.config
            pretty := reading.flags.elem .pretty
            stats := reading.flags.elem .stats
            strict := reading.flags.elem .strict
            verbose := reading.flags.elem .verbose
            quiet := reading.flags.elem .quiet }

end CodeInventory.CommandLine
