import CodeInventory.Json
import CodeInventory.Json.Token

set_option autoImplicit false

namespace CodeInventory.Json

-- An array or object under way; what was read of it stands latest first.
inductive Frame where
  | array (before : List Json)
  | object (before : List (String × Json)) (key : String)

inductive Expected where
  | value
  | itemOrEnd
  | keyOrEnd
  | key (before : List (String × Json))
  | colon (before : List (String × Json)) (key : String)
  | after (value : Json)

structure Build where
  expected : Expected
  stack : List Frame

namespace Build

def start : Build :=
  ⟨.value, []⟩

def begin? (stack : List Frame) : Token → Option Build
  | .openArray => some ⟨.itemOrEnd, stack⟩
  | .openObject => some ⟨.keyOrEnd, stack⟩
  | .null => some ⟨.after .null, stack⟩
  | .bool value => some ⟨.after (.bool value), stack⟩
  | .nat value => some ⟨.after (.nat value), stack⟩
  | .number literal => some ⟨.after (.number literal), stack⟩
  | .string value => some ⟨.after (.string value), stack⟩
  | _ => none

def goOn? (value : Json) : List Frame → Token → Option Build
  | .array before :: stack, .comma => some ⟨.value, .array (value :: before) :: stack⟩
  | .array before :: stack, .closeArray => some ⟨.after (.array (value :: before).reverse), stack⟩
  | .object before key :: stack, .comma => some ⟨.key ((key, value) :: before), stack⟩
  | .object before key :: stack, .closeObject =>
      some ⟨.after (.object ((key, value) :: before).reverse), stack⟩
  | _, _ => none

def step? (build : Build) (token : Token) : Option Build :=
  match build.expected, token with
  | .value, token => begin? build.stack token
  | .itemOrEnd, .closeArray => some ⟨.after (.array []), build.stack⟩
  | .itemOrEnd, token => begin? (.array [] :: build.stack) token
  | .keyOrEnd, .closeObject => some ⟨.after (.object []), build.stack⟩
  | .keyOrEnd, .string key => some ⟨.colon [] key, build.stack⟩
  | .key before, .string key => some ⟨.colon before key, build.stack⟩
  | .colon before key, .colon => some ⟨.value, .object before key :: build.stack⟩
  | .after value, token => goOn? value build.stack token
  | _, _ => none

def finish? (build : Build) : Option Json :=
  match build.expected, build.stack with
  | .after value, [] => some value
  | _, _ => none

end Build

def ofTokens? (tokens : List Token) : Option Json := do
  (← tokens.foldlM Build.step? Build.start).finish?

def parse? (text : String) : Option Json := do
  ofTokens? (← Token.scan? text.toList)

end CodeInventory.Json
