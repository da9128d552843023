set_option autoImplicit false

namespace CodeInventory

inductive CollisionPolicy where
  | overwrite
  | error
deriving DecidableEq, Repr

namespace CollisionPolicy

def key : CollisionPolicy → String
  | .overwrite => "overwrite"
  | .error => "error"

def ofKey? (key : String) : Option CollisionPolicy :=
  [overwrite, error].find? fun policy => policy.key == key

end CollisionPolicy

end CodeInventory
