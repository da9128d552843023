import CodeInventory.Config
import CodeInventory.Json
import CodeInventory.Toml

set_option autoImplicit false

namespace CodeInventory

namespace Config

def keys : List String :=
  ["supported_languages", "collision_policy", "max_depth", "emit_blank_gaps"]

def toJson (config : Config) : Json :=
  .object
    [("supported_languages", .array (config.supportedLanguages.map .string)),
      ("collision_policy", .string config.collisionPolicy.key),
      ("max_depth", .nat config.maxDepth),
      ("emit_blank_gaps", .bool config.emitBlankGaps)]

-- The value of a setting, or its standard where there is none. It must not be given twice.
def setting? {α : Type} (standard : α) (read? : Json → Option α) : List Json → Option α
  | [] => some standard
  | [json] => read? json
  | _ => none

-- The configuration with the settings that `values` gives. How a choice without content is written
-- depends on the format, which `isEmpty` tells.
def ofSettings? (isEmpty : Json → Bool) (values : String → List Json) : Option Config := do
  let supportedLanguages ←
    setting? standard.supportedLanguages (Json.list? Json.string?) (values "supported_languages")
  let collisionPolicy ←
    setting? standard.collisionPolicy
      (fun json => do CollisionPolicy.ofKey? (← json.choice? isEmpty)) (values "collision_policy")
  let maxDepth ← setting? standard.maxDepth Json.word? (values "max_depth")
  let emitBlankGaps ← setting? standard.emitBlankGaps Json.bool? (values "emit_blank_gaps")
  some { supportedLanguages, collisionPolicy, maxDepth, emitBlankGaps }

def ofFields? (isEmpty : Json → Bool) (fields : List (String × Json)) : Option Config :=
  ofSettings? isEmpty (Json.valuesUnder fields)

def ofJson? : Json → Option Config
  | .object fields => ofFields? Json.isNull fields
  | .array items =>
      if items.length ≤ keys.length then
        ofSettings? Json.isNull (Json.valuesUnder (keys.zip items))
      else none
  | _ => none

-- In a TOML document a choice without content may be written as a key with an empty table.
def isEmptyTable : Json → Bool
  | .object [] => true
  | _ => false

def ofToml? (text : String) : Option Config := do
  ofFields? isEmptyTable (← Toml.parse? text)

end Config

end CodeInventory
