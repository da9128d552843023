import CodeInventory.Language
import CodeInventory.Text.Split
import CodeInventory.Text.Utf8

set_option autoImplicit false

namespace CodeInventory.Path

-- A path is a list of octets, which need not be text in UTF-8.

def slash : UInt8 := 0x2F

def dot : UInt8 := 0x2E

inductive Part where
  | root
  | here
  | up
  | name (octets : List UInt8)
deriving DecidableEq, Repr

def Part.octets : Part → List UInt8
  | .root => [slash]
  | .here => [dot]
  | .up => [dot, dot]
  | .name octets => octets

def segments (path : List UInt8) : List (List UInt8) :=
  Text.pieces slash path

def partOf? (segment : List UInt8) : Option Part :=
  if segment = [] ∨ segment = [dot] then none
  else if segment = [dot, dot] then some .up
  else some (.name segment)

-- Repeated and trailing slashes separate nothing, and a dot counts only at the very start.
def parts (path : List UInt8) : List Part :=
  match segments path with
  | [] => []
  | first :: rest =>
      let start :=
        if first = [] then (if rest = [] then none else some .root)
        else if first = [dot] then some .here
        else partOf? first
      start.toList ++ rest.filterMap partOf?

def fileName? (path : List UInt8) : Option (List UInt8) :=
  match (parts path).getLast? with
  | some (.name octets) => some octets
  | _ => none

-- What follows the last dot of the file name, unless that dot begins the name.
def extension? (path : List UInt8) : Option (List UInt8) := do
  let name ← fileName? path
  let reversed := name.reverse.takeWhile (· ≠ dot)
  let stem := name.take (name.length - reversed.length - 1)
  if reversed.length < name.length ∧ stem ≠ [] then some reversed.reverse else none

def extensionText? (path : List UInt8) : Option String := do
  Text.decodeStrict? (← extension? path)

-- An extension that is not UTF-8 tells no language.
def language (path : List UInt8) : Language :=
  match extensionText? path with
  | some extension => .ofExtension extension
  | none => .unknown

def checkoutParent : Part := .name (Text.octets "tmp")

-- Below a checkout `tmp/<name>/` what follows the checkout, else the whole path.
def withoutCheckout (path : List UInt8) : List UInt8 :=
  match (parts path).findIdx? (· == checkoutParent) with
  | none => path
  | some i => [slash].intercalate (((parts path).drop (i + 2)).map Part.octets)

def shown (path : List UInt8) : String :=
  Text.decodeLenient (withoutCheckout path)

end CodeInventory.Path
