set_option autoImplicit false

namespace CodeInventory.Text

variable {α : Type}

def extendFirst (item : α) : List (List α) → List (List α)
  | [] => [[item]]
  | piece :: rest => (item :: piece) :: rest

-- The pieces between occurrences of the separator, empty ones included. There is always one.
def pieces [DecidableEq α] (separator : α) (items : List α) : List (List α) :=
  items.foldr
    (fun item found => if item = separator then [] :: found else extendFirst item found) [[]]

def split (separator : Char) (text : String) : List String :=
  (pieces separator text.toList).map String.ofList

end CodeInventory.Text
