import CodeInventory.Category

set_option autoImplicit false

namespace CodeInventory

inductive FileFault where
  | notFound
  | notDirectory
  | isDirectory
  | nameTooLong
  | nulInName
  | notUtf8
  | other (text : String)
deriving DecidableEq, Repr

def FileFault.message : FileFault → String
  | .notFound => "No such file or directory (os error 2)"
  | .notDirectory => "Not a directory (os error 20)"
  | .isDirectory => "Is a directory (os error 21)"
  | .nameTooLong => "File name too long (os error 36)"
  | .nulInName => "file name contained an unexpected NUL byte"
  | .notUtf8 => "stream did not contain valid UTF-8"
  | .other text => text

inductive Fault where
  | unparsable (detail : String)
  | unsupportedLanguage (name : String)
  | invalidConfig (detail : String)
  | file (cause : FileFault)
  | grammar (detail : String)
  | depthLimitExceeded (limit : Nat)
  | nameCollision (category : Category) (name : String)
deriving DecidableEq, Repr

def Fault.message : Fault → String
  | .unparsable detail => "Parse error: " ++ detail
  | .unsupportedLanguage name => "Unsupported language: " ++ name
  | .invalidConfig detail => "Invalid configuration: " ++ detail
  | .file cause => "IO error: " ++ cause.message
  | .grammar detail => "Tree-sitter error: " ++ detail
  | .depthLimitExceeded limit => "Syntax tree exceeds maximum depth of " ++ toString limit
  | .nameCollision category name => "Duplicate " ++ category.key ++ " entry: " ++ name

-- What aborts the program instead of being reported: octets are asked for that the source does not
-- have, or a construct belongs to the loose text.
inductive Panic where
  | badRange (first last size : Nat)
  | unreachable
deriving DecidableEq, Repr

inductive Halt where
  | fault (fault : Fault)
  | panic (panic : Panic)
deriving DecidableEq, Repr

end CodeInventory
