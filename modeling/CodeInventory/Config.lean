import CodeInventory.CollisionPolicy
import CodeInventory.Language
import CodeInventory.Text.Quoted

set_option autoImplicit false

namespace CodeInventory

structure Config where
  supportedLanguages : List String
  collisionPolicy : CollisionPolicy
  maxDepth : Nat
  emitBlankGaps : Bool
deriving DecidableEq, Repr

inductive ConfigFault where
  | zeroDepth
  | blankLanguage (entry : String)
deriving DecidableEq, Repr

def ConfigFault.message : ConfigFault → String
  | .zeroDepth => "max_depth must be > 0"
  | .blankLanguage entry =>
      "supported_languages contains a blank entry: " ++ Text.quoted entry

namespace Config

def standard : Config :=
  ⟨[], .overwrite, 4096, false⟩

def refusingCollisions (config : Config) : Config :=
  { config with collisionPolicy := .error }

def strict : Config :=
  standard.refusingCollisions

-- The depth is looked at before the languages.
def fault? (config : Config) : Option ConfigFault :=
  if config.maxDepth = 0 then some .zeroDepth
  else (config.supportedLanguages.find? fun entry => Text.trim entry = "").map .blankLanguage

def admits (config : Config) (language : Language) : Bool :=
  config.supportedLanguages.isEmpty ||
    config.supportedLanguages.any fun entry =>
      Text.sameIgnoringCase (Text.trim entry) language.name

end Config

end CodeInventory
