import CodeInventory.CommandLine
import CodeInventory.Json.Reader
import CodeInventory.SyntaxTree.Format

set_option autoImplicit false

namespace CodeInventory

-- The environment variable `SYNTAX_TREE` names a file with the tree of the source, which a separate
-- parser makes.

def errorNumber (code : UInt32) : Nat :=
  if code.toNat < 2147483648 then code.toNat else 4294967296 - code.toNat

def faultOf (failure : IO.Error) : FileFault :=
  match failure with
  | .noFileOrDirectory .. => .notFound
  | .permissionDenied .. => .other "Permission denied (os error 13)"
  | .inappropriateType _ code _ => if errorNumber code = 21 then .isDirectory else .notDirectory
  | .otherError code details =>
      .other (details ++ " (os error " ++ toString (errorNumber code) ++ ")")
  | failure => .other (toString failure)

-- The runtime names files by texts, so a path that is none leads nowhere.
def readFile (path : List UInt8) : IO (Except FileFault (List UInt8)) := do
  match Text.decodeStrict? path with
  | none => return .error .notFound
  | some name =>
      try
        let octets ← IO.FS.readBinFile name
        return .ok octets.data.toList
      catch fault => return .error (faultOf fault)

def readInput : IO (List UInt8) := do
  let stream ← IO.getStdin
  let mut octets := ByteArray.empty
  let mut block ← stream.read 65536
  while block.size > 0 do
    octets := octets ++ block
    block ← stream.read 65536
  return octets.data.toList

def readTree : IO (Option SyntaxTree) := do
  match ← IO.getEnv "SYNTAX_TREE" with
  | none => return none
  | some path =>
      match ← readFile (Text.octets path) with
      | .error _ => return none
      | .ok octets =>
          return do SyntaxTree.ofJson? (← Json.parse? (← Text.decodeStrict? octets))

end CodeInventory

open CodeInventory in
def main (arguments : List String) : IO UInt32 := do
  let arguments := arguments.map Text.octets
  let (files, fromInput) :=
    match CommandLine.Invocation.ofArguments arguments with
    | .ok invocation =>
        if invocation.path = CommandLine.stdinPath then (invocation.config.toList, true)
        else (invocation.config.toList ++ [invocation.path], false)
    | .error _ => ([], false)
  let contents ← files.mapM fun path => do return (path, ← readFile path)
  let stdin ← if fromInput then readInput else pure []
  let tree ← readTree
  let time := (← IO.getEnv "LOG_TIME").getD ""
  let output := CommandLine.execute
    { read := fun path => (contents.lookup path).getD (.error .notFound)
      stdin
      logging := ← IO.getEnv "RUST_LOG"
      clock := fun _ => time
      parse := fun _ _ => tree
      tomlFault := fun _ => "TOML parse error"
      panicNote := fun _ => "" } arguments
  IO.eprint output.stderr
  IO.print output.stdout
  return UInt32.ofNat output.exit
