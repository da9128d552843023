import CodeInventory.Text.Digit

set_option autoImplicit false

namespace CodeInventory.Json

-- Tokens are read by a machine that takes one character at a time, so a text of any length and
-- nesting is read in one pass.

inductive Token where
  | openArray
  | closeArray
  | openObject
  | closeObject
  | colon
  | comma
  | null
  | bool (value : Bool)
  | nat (value : Nat)
  | number (literal : String)
  | string (value : String)
deriving DecidableEq, Repr

def escapeChar (c : Char) : List Char :=
  if c = '"' then ['\\', '"']
  else if c = '\\' then ['\\', '\\']
  else if c = '\n' then ['\\', 'n']
  else if c = '\r' then ['\\', 'r']
  else if c = '\t' then ['\\', 't']
  else if c.toNat = 8 then ['\\', 'b']
  else if c.toNat = 12 then ['\\', 'f']
  else if c.toNat < 32 then
    ['\\', 'u', '0', '0', Text.hexDigit (c.toNat / 16), Text.hexDigit (c.toNat % 16)]
  else [c]

def escape (text : List Char) : List Char :=
  text.flatMap escapeChar

namespace Token

def render : Token → List Char
  | .openArray => ['[']
  | .closeArray => [']']
  | .openObject => ['\x7b']
  | .closeObject => ['\x7d']
  | .colon => [':']
  | .comma => [',']
  | .null => ['n', 'u', 'l', 'l']
  | .bool true => ['t', 'r', 'u', 'e']
  | .bool false => ['f', 'a', 'l', 's', 'e']
  | .nat value => Nat.toDigits 10 value
  | .number literal => literal.toList
  | .string value => '"' :: escape value.toList ++ ['"']

def isWhole (digits : List Char) : Bool :=
  match digits with
  | [] => false
  | '0' :: rest => rest.isEmpty
  | _ => digits.all Char.isDigit

def isDigits (digits : List Char) : Bool :=
  !digits.isEmpty && digits.all Char.isDigit

def isExponent : List Char → Bool
  | [] => true
  | mark :: rest =>
      (mark == 'e' || mark == 'E') &&
        match rest with
        | '+' :: digits => isDigits digits
        | '-' :: digits => isDigits digits
        | digits => isDigits digits

def isFraction : List Char → Bool
  | '.' :: rest =>
      isDigits (rest.takeWhile Char.isDigit) && isExponent (rest.dropWhile Char.isDigit)
  | rest => isExponent rest

def isUnsigned (chars : List Char) : Bool :=
  isWhole (chars.takeWhile Char.isDigit) && isFraction (chars.dropWhile Char.isDigit)

def isNumber : List Char → Bool
  | '-' :: rest => isUnsigned rest
  | rest => isUnsigned rest

def ofBare? (chars : List Char) : Option Token :=
  if chars = ['n', 'u', 'l', 'l'] then some .null
  else if chars = ['t', 'r', 'u', 'e'] then some (.bool true)
  else if chars = ['f', 'a', 'l', 's', 'e'] then some (.bool false)
  else if isWhole chars then some (.nat (Nat.ofDigitChars 10 chars 0))
  else if isNumber chars then some (.number (String.ofList chars))
  else none

def isBare (c : Char) : Bool :=
  c.isAlphanum || c == '+' || c == '-' || c == '.'

def isSpace (c : Char) : Bool :=
  c == ' ' || c == '\n' || c == '\r' || c == '\t'

inductive Reading where
  | idle
  | bare (chars : List Char)
  | text (chars : List Char)
  | escape (chars : List Char)
  -- Hexadecimal digits of an escape: how many were read, their value, and the first half of the
  -- pair they complete, if they do.
  | code (chars : List Char) (half : Option Nat) (digits value : Nat)
  | half (chars : List Char) (first : Nat)
  | halfEscape (chars : List Char) (first : Nat)
deriving DecidableEq, Repr

structure Scan where
  reading : Reading
  tokens : List Token
deriving DecidableEq, Repr

namespace Scan

def start : Scan :=
  ⟨.idle, []⟩

def punctuation : List (Char × Token) :=
  [('[', .openArray), (']', .closeArray), ('\x7b', .openObject), ('\x7d', .closeObject),
    (':', .colon), (',', .comma)]

def begin? (tokens : List Token) (c : Char) : Option Scan :=
  if isSpace c then some ⟨.idle, tokens⟩
  else if c = '"' then some ⟨.text [], tokens⟩
  else if isBare c then some ⟨.bare [c], tokens⟩
  else (punctuation.lookup c).map fun token => ⟨.idle, token :: tokens⟩

def shortEscapes : List (Char × Char) :=
  [('"', '"'), ('\\', '\\'), ('/', '/'), ('b', '\x08'), ('f', '\x0c'), ('n', '\n'), ('r', '\r'),
    ('t', '\t')]

def unit? (tokens : List Token) (chars : List Char) (half : Option Nat) (unit : Nat) :
    Option Scan :=
  match half with
  | none =>
      if 0xD800 ≤ unit ∧ unit < 0xDC00 then some ⟨.half chars unit, tokens⟩
      else if 0xDC00 ≤ unit ∧ unit < 0xE000 then none
      else some ⟨.text (Char.ofNat unit :: chars), tokens⟩
  | some first =>
      if 0xDC00 ≤ unit ∧ unit < 0xE000 then
        let point := 0x10000 + (first - 0xD800) * 0x400 + (unit - 0xDC00)
        some ⟨.text (Char.ofNat point :: chars), tokens⟩
      else none

def step? (scan : Scan) (c : Char) : Option Scan :=
  match scan.reading with
  | .idle => begin? scan.tokens c
  | .bare chars =>
      if isBare c then some ⟨.bare (c :: chars), scan.tokens⟩
      else do
        let token ← ofBare? chars.reverse
        begin? (token :: scan.tokens) c
  | .text chars =>
      if c = '"' then some ⟨.idle, .string (String.ofList chars.reverse) :: scan.tokens⟩
      else if c = '\\' then some ⟨.escape chars, scan.tokens⟩
      else if c.toNat < 32 then none
      else some ⟨.text (c :: chars), scan.tokens⟩
  | .escape chars =>
      if c = 'u' then some ⟨.code chars none 0 0, scan.tokens⟩
      else (shortEscapes.lookup c).map fun escaped => ⟨.text (escaped :: chars), scan.tokens⟩
  | .code chars half digits value => do
      let digit ← Text.hexValue? c
      let value := value * 16 + digit
      if digits < 3 then some ⟨.code chars half (digits + 1) value, scan.tokens⟩
      else unit? scan.tokens chars half value
  | .half chars first => if c = '\\' then some ⟨.halfEscape chars first, scan.tokens⟩ else none
  | .halfEscape chars first =>
      if c = 'u' then some ⟨.code chars (some first) 0 0, scan.tokens⟩ else none

def finish? (scan : Scan) : Option (List Token) :=
  match scan.reading with
  | .idle => some scan.tokens.reverse
  | .bare chars => do
      let token ← ofBare? chars.reverse
      some (token :: scan.tokens).reverse
  | _ => none

end Scan

def scan? (chars : List Char) : Option (List Token) := do
  (← chars.foldlM Scan.step? Scan.start).finish?

end Token

end CodeInventory.Json
