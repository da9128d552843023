import CodeInventory.Text.Blank
import CodeInventory.Text.Uppercase

set_option autoImplicit false

namespace CodeInventory.Marker

def isHook (name : String) : Bool :=
  match name.toList with
  | 'u' :: 's' :: 'e' :: next :: _ => Text.isUpper next
  | _ => false

-- Any `<` is the mark of a component, a comparison's too.
def plainMarks : List (List Char) :=
  [['R', 'e', 'a', 'c', 't'], ['<'], ['p', 'r', 'o', 'p', 's'], ['r', 'e', 'n', 'd', 'e', 'r']]

def longS : Char := '\u017F'

-- `jsx` or `tsx` in any case, where the long s is a form of s.
def startsWithMarkupName : List Char → Bool
  | first :: second :: third :: _ =>
      ['j', 'J', 't', 'T'].elem first && ['s', 'S', longS].elem second && ['x', 'X'].elem third
  | _ => false

def startsWithMark (chars : List Char) : Bool :=
  (plainMarks.any fun mark => mark.isPrefixOf chars) || startsWithMarkupName chars

def hasMark : List Char → Bool
  | [] => false
  | c :: rest => startsWithMark (c :: rest) || hasMark rest

def isComponent (code : String) : Bool :=
  hasMark code.toList

def isAsync (code : String) : Bool :=
  Text.firstWord code.toList == ['a', 's', 'y', 'n', 'c']

end CodeInventory.Marker
