set_option autoImplicit false

namespace CodeInventory.Text

-- `decode` gives one entry per character and `none` for each maximal ill-formed run: the longest
-- start of some character that the octets still allow, or one octet that starts none.

structure Partway where
  bits : Nat
  missing : Nat
  low : Nat
  high : Nat
deriving DecidableEq, Repr

inductive Lead where
  | complete (c : Char)
  | more (rest : Partway)
  | invalid
deriving DecidableEq, Repr

-- Overlong forms, surrogates and values past U+10FFFF are excluded by the range of the second
-- octet.
def lead (octet : Nat) : Lead :=
  if octet < 0x80 then .complete (Char.ofNat octet)
  else if octet < 0xC2 then .invalid
  else if octet < 0xE0 then .more ⟨octet - 0xC0, 1, 0x80, 0xBF⟩
  else if octet = 0xE0 then .more ⟨0, 2, 0xA0, 0xBF⟩
  else if octet = 0xED then .more ⟨0xD, 2, 0x80, 0x9F⟩
  else if octet < 0xF0 then .more ⟨octet - 0xE0, 2, 0x80, 0xBF⟩
  else if octet = 0xF0 then .more ⟨0, 3, 0x90, 0xBF⟩
  else if octet < 0xF4 then .more ⟨octet - 0xF0, 3, 0x80, 0xBF⟩
  else if octet = 0xF4 then .more ⟨4, 3, 0x80, 0x8F⟩
  else .invalid

def beginChar (octet : Nat) : List (Option Char) × Option Partway :=
  match lead octet with
  | .complete c => ([some c], none)
  | .more rest => ([], some rest)
  | .invalid => ([none], none)

-- An octet outside the expected range ends the character partway as ill-formed and begins anew.
def feed (octet : Nat) : Option Partway → List (Option Char) × Option Partway
  | none => beginChar octet
  | some partway =>
      if partway.low ≤ octet ∧ octet ≤ partway.high then
        let bits := partway.bits * 64 + (octet - 0x80)
        if partway.missing ≤ 1 then ([some (Char.ofNat bits)], none)
        else ([], some ⟨bits, partway.missing - 1, 0x80, 0xBF⟩)
      else
        let (entries, next) := beginChar octet
        (none :: entries, next)

def decodeFrom : Option Partway → List UInt8 → List (Option Char)
  | none, [] => []
  | some _, [] => [none]
  | partway, octet :: rest =>
      let (entries, next) := feed octet.toNat partway
      entries ++ decodeFrom next rest

def decode (octets : List UInt8) : List (Option Char) :=
  decodeFrom none octets

def replacement : Char := '\uFFFD'

def decodeLenient (octets : List UInt8) : String :=
  String.ofList ((decode octets).map fun entry => entry.getD replacement)

def decodeStrict? (octets : List UInt8) : Option String :=
  ((decode octets).mapM id).map String.ofList

def octets (text : String) : List UInt8 :=
  text.toUTF8.data.toList

end CodeInventory.Text
