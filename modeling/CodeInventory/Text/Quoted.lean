import CodeInventory.Text.Blank

set_option autoImplicit false

namespace CodeInventory.Text

-- The characters that reach this form are blank or printable, so blank characters other than the
-- space and control characters are the ones written as escapes.

def hexEscape (c : Char) : List Char :=
  ['\\', 'u', '\x7b'] ++ Nat.toDigits 16 c.toNat ++ ['\x7d']

def quotedChar (c : Char) : List Char :=
  if c = '\t' then ['\\', 't']
  else if c = '\r' then ['\\', 'r']
  else if c = '\n' then ['\\', 'n']
  else if c = '"' then ['\\', '"']
  else if c = '\\' then ['\\', '\\']
  else if c.toNat = 0 then ['\\', '0']
  else if c ≠ ' ' ∧ (isBlank c ∨ c.toNat < 0x20 ∨ c.toNat = 0x7F) then hexEscape c
  else [c]

def quoted (text : String) : String :=
  String.ofList ('"' :: text.toList.flatMap quotedChar ++ ['"'])

end CodeInventory.Text
