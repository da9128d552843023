set_option autoImplicit false

namespace CodeInventory.Text

-- Lower case as far as names made of ASCII characters can tell: besides the capitals `A` to `Z`,
-- the Kelvin sign is the only character whose lower case form is written in ASCII alone.

def kelvinSign : Char := '\u212A'

def lowerChar (c : Char) : Char :=
  if c = kelvinSign then 'k' else c.toLower

def lower (text : String) : String :=
  String.ofList (text.toList.map lowerChar)

def sameIgnoringCase (left right : String) : Bool :=
  left.toList.map Char.toLower == right.toList.map Char.toLower

end CodeInventory.Text
