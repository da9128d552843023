import CodeInventory.Json
import CodeInventory.Text.Digit

set_option autoImplicit false

namespace CodeInventory.Toml

def digits? (base : Nat) : List Char → Option (List Nat)
  | [] => none
  | [c] => (Text.digitValue? base c).map fun digit => [digit]
  | c :: '_' :: rest => do some ((← Text.digitValue? base c) :: (← digits? base rest))
  | c :: rest => do some ((← Text.digitValue? base c) :: (← digits? base rest))

def valueOf (base : Nat) (digits : List Nat) : Nat :=
  digits.foldl (fun value digit => value * base + digit) 0

def decimal? (chars : List Char) : Option Nat := do
  let digits ← digits? 10 chars
  if digits.head? = some 0 ∧ digits ≠ [0] then none else some (valueOf 10 digits)

def splitSign : List Char → Bool × List Char
  | '-' :: rest => (true, rest)
  | '+' :: rest => (false, rest)
  | rest => (false, rest)

def largest : Nat := 9223372036854775807

def integer? (chars : List Char) : Option Json :=
  let small (value : Nat) : Option Json := if value ≤ largest then some (.nat value) else none
  match chars with
  | '0' :: 'x' :: rest => do small (valueOf 16 (← digits? 16 rest))
  | '0' :: 'o' :: rest => do small (valueOf 8 (← digits? 8 rest))
  | '0' :: 'b' :: rest => do small (valueOf 2 (← digits? 2 rest))
  | _ => do
      let (negative, rest) := splitSign chars
      let value ← decimal? rest
      if !negative || value = 0 then small value
      else if value ≤ largest + 1 then some (.number (String.ofList chars))
      else none

def isExponent : List Char → Bool
  | [] => true
  | mark :: rest => (mark == 'e' || mark == 'E') && (digits? 10 (splitSign rest).2).isSome

def isFloat (chars : List Char) : Bool :=
  let rest := (splitSign chars).2
  let isDecimal (c : Char) : Bool := c.isDigit || c == '_'
  if rest = ['i', 'n', 'f'] ∨ rest = ['n', 'a', 'n'] then true
  else
    (decimal? (rest.takeWhile isDecimal)).isSome &&
      match rest.dropWhile isDecimal with
      | [] => false
      | '.' :: fraction =>
          (digits? 10 (fraction.takeWhile isDecimal)).isSome &&
            isExponent (fraction.dropWhile isDecimal)
      | exponent => isExponent exponent

def field? (width : Nat) (chars : List Char) : Option (Nat × List Char) :=
  let digits := chars.take width
  if digits.length = width ∧ digits.all Char.isDigit then
    some (Nat.ofDigitChars 10 digits 0, chars.drop width)
  else none

def expect? (c : Char) : List Char → Option (List Char)
  | [] => none
  | first :: rest => if first = c then some rest else none

def daysIn (year month : Nat) : Nat :=
  if month = 2 then
    if year % 4 = 0 ∧ (year % 100 ≠ 0 ∨ year % 400 = 0) then 29 else 28
  else if [4, 6, 9, 11].elem month then 30
  else 31

def afterDate? (chars : List Char) : Option (List Char) := do
  let (year, rest) ← field? 4 chars
  let (month, rest) ← field? 2 (← expect? '-' rest)
  let (day, rest) ← field? 2 (← expect? '-' rest)
  if 1 ≤ month ∧ month ≤ 12 ∧ 1 ≤ day ∧ day ≤ daysIn year month then some rest else none

def afterTime? (chars : List Char) : Option (List Char) := do
  let (hour, rest) ← field? 2 chars
  let (minute, rest) ← field? 2 (← expect? ':' rest)
  let (second, rest) ← field? 2 (← expect? ':' rest)
  if 23 < hour ∨ 59 < minute ∨ 60 < second then none
  else
    match rest with
    | '.' :: fraction =>
        if (fraction.takeWhile Char.isDigit).isEmpty then none
        else some (fraction.dropWhile Char.isDigit)
    | rest => some rest

def isOffset : List Char → Bool
  | [] => true
  | ['Z'] => true
  | ['z'] => true
  | sign :: rest =>
      (sign == '+' || sign == '-') &&
        ((do
          let (hour, rest) ← field? 2 rest
          let (minute, rest) ← field? 2 (← expect? ':' rest)
          if hour ≤ 23 ∧ minute ≤ 59 ∧ rest = [] then some () else none) : Option Unit).isSome

def isDate (chars : List Char) : Bool :=
  afterDate? chars == some []

def isTime (chars : List Char) : Bool :=
  afterTime? chars == some []

def isDateTime (chars : List Char) : Bool :=
  match afterDate? chars with
  | some (mark :: rest) =>
      ['T', 't', ' '].elem mark &&
        match afterTime? rest with
        | some offset => isOffset offset
        | none => false
  | _ => false

def literal? (chars : List Char) : Option Json :=
  if chars = ['t', 'r', 'u', 'e'] then some (.bool true)
  else if chars = ['f', 'a', 'l', 's', 'e'] then some (.bool false)
  else
    (integer? chars).or
      (if isFloat chars || isDate chars || isTime chars || isDateTime chars then
        some (.number (String.ofList chars))
      else none)

end CodeInventory.Toml
