import CodeInventory.Json
import CodeInventory.Json.Token

set_option autoImplicit false

namespace CodeInventory.Json

mutual

def tokens : Json → List Token
  | .null => [.null]
  | .bool value => [.bool value]
  | .nat value => [.nat value]
  | .number literal => [.number literal]
  | .string value => [.string value]
  | .array items => .openArray :: itemTokens items ++ [.closeArray]
  | .object fields => .openObject :: fieldTokens fields ++ [.closeObject]

def itemTokens : List Json → List Token
  | [] => []
  | [item] => tokens item
  | item :: rest => tokens item ++ .comma :: itemTokens rest

def fieldTokens : List (String × Json) → List Token
  | [] => []
  | [(key, value)] => .string key :: .colon :: tokens value
  | (key, value) :: rest => .string key :: .colon :: tokens value ++ .comma :: fieldTokens rest

end

def compact (json : Json) : String :=
  String.ofList (json.tokens.flatMap Token.render)

def newline (depth : Nat) : List Char :=
  '\n' :: List.replicate (2 * depth) ' '

mutual

def prettyAt (depth : Nat) : Json → List Char
  | .null => Token.null.render
  | .bool value => (Token.bool value).render
  | .nat value => (Token.nat value).render
  | .number literal => (Token.number literal).render
  | .string value => (Token.string value).render
  | .array [] => ['[', ']']
  | .array items => '[' :: prettyItems (depth + 1) items ++ newline depth ++ [']']
  | .object [] => ['\x7b', '\x7d']
  | .object fields => '\x7b' :: prettyFields (depth + 1) fields ++ newline depth ++ ['\x7d']

def prettyItems (depth : Nat) : List Json → List Char
  | [] => []
  | [item] => newline depth ++ prettyAt depth item
  | item :: rest => newline depth ++ prettyAt depth item ++ ',' :: prettyItems depth rest

def prettyFields (depth : Nat) : List (String × Json) → List Char
  | [] => []
  | [(key, value)] =>
      newline depth ++ (Token.string key).render ++ ':' :: ' ' :: prettyAt depth value
  | (key, value) :: rest =>
      newline depth ++ (Token.string key).render ++ ':' :: ' ' :: prettyAt depth value ++
        ',' :: prettyFields depth rest

end

def pretty (json : Json) : String :=
  String.ofList (prettyAt 0 json)

end CodeInventory.Json
