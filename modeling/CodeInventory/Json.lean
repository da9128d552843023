set_option autoImplicit false

namespace CodeInventory

inductive Json where
  | null
  | bool (value : Bool)
  | nat (value : Nat)
  | number (literal : String)
  | string (value : String)
  | array (items : List Json)
  | object (fields : List (String × Json))
deriving Repr, Inhabited

namespace Json

def valuesUnder (fields : List (String × Json)) (key : String) : List Json :=
  (fields.filter fun field => key == field.1).map Prod.snd

-- The value under a key that must be given, and given once.
def get? (fields : List (String × Json)) (key : String) : Option Json :=
  match valuesUnder fields key with
  | [value] => some value
  | _ => none

def string? : Json → Option String
  | .string value => some value
  | _ => none

def bool? : Json → Option Bool
  | .bool value => some value
  | _ => none

def wordLimit : Nat := 18446744073709551616

def word? : Json → Option Nat
  | .nat value => if value < wordLimit then some value else none
  | _ => none

def list? {α : Type} (item? : Json → Option α) : Json → Option (List α)
  | .array items => items.mapM item?
  | _ => none

def isNull : Json → Bool
  | .null => true
  | _ => false

-- The name of a choice without content: the name alone, or the name as the one key of an object
-- whose value is empty.
def choice? (isEmpty : Json → Bool) : Json → Option String
  | .string name => some name
  | .object [(name, content)] => if isEmpty content then some name else none
  | _ => none

end Json

end CodeInventory
