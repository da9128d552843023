import CodeInventory.Toml.Literal
import CodeInventory.Toml.Table

set_option autoImplicit false

namespace CodeInventory.Toml

-- Each reader takes the characters ahead and gives what it read and what is left. The number of
-- characters bounds the steps that a reader can take, so a bound that starts there is never met.

def isSpace (c : Char) : Bool :=
  c == ' ' || c == '\t'

def skipSpace (chars : List Char) : List Char :=
  chars.dropWhile isSpace

def isPlain (c : Char) : Bool :=
  c == '\t' || (0x20 ≤ c.toNat && c.toNat ≠ 0x7F)

def skipComment : List Char → List Char
  | '#' :: rest => rest.dropWhile isPlain
  | chars => chars

def endLine? (chars : List Char) : Option (List Char) :=
  match skipComment (skipSpace chars) with
  | [] => some []
  | '\n' :: rest => some rest
  | '\r' :: '\n' :: rest => some rest
  | _ => none

def skipFiller : Nat → List Char → List Char
  | 0, chars => chars
  | bound + 1, chars =>
      match skipSpace chars with
      | '#' :: rest => skipFiller bound (rest.dropWhile isPlain)
      | '\n' :: rest => skipFiller bound rest
      | '\r' :: '\n' :: rest => skipFiller bound rest
      | rest => rest

structure Style where
  quote : Char
  spansLines : Bool
  hasEscapes : Bool

def codePoint? (width : Nat) (chars : List Char) : Option (Char × List Char) := do
  let digits ← (chars.take width).mapM Text.hexValue?
  let point := valueOf 16 digits
  if digits.length = width ∧ (point < 0xD800 ∨ (0xE000 ≤ point ∧ point < 0x110000)) then
    some (Char.ofNat point, chars.drop width)
  else none

def shortEscapes : List (Char × Char) :=
  [('b', '\x08'), ('t', '\t'), ('n', '\n'), ('f', '\x0c'), ('r', '\r'), ('"', '"'), ('\\', '\\')]

def escape? : List Char → Option (Char × List Char)
  | 'u' :: rest => codePoint? 4 rest
  | 'U' :: rest => codePoint? 8 rest
  | c :: rest => (shortEscapes.lookup c).map fun escaped => (escaped, rest)
  | [] => none

def skipBreaks : Nat → List Char → List Char
  | 0, chars => chars
  | bound + 1, chars =>
      match skipSpace chars with
      | '\n' :: rest => skipBreaks bound rest
      | '\r' :: '\n' :: rest => skipBreaks bound rest
      | rest => rest

-- The characters of a string after its opening quotes, up to and including the closing ones. Up to
-- two quotes may stand directly before the closing quotes of a string that spans lines.
def stringRest? (style : Style) : Nat → List Char → Option (List Char × List Char)
  | 0, _ => none
  | _, [] => none
  | bound + 1, c :: rest =>
      let goOn (c : Char) (rest : List Char) : Option (List Char × List Char) :=
        (stringRest? style bound rest).map fun (text, left) => (c :: text, left)
      if c = style.quote then
        if !style.spansLines then some ([], rest)
        else
          let run := min 5 ((c :: rest).takeWhile (· = style.quote)).length
          if run < 3 then goOn c rest
          else some (List.replicate (run - 3) c, (c :: rest).drop run)
      else if c = '\\' ∧ style.hasEscapes then
        match style.spansLines, skipSpace rest with
        | true, '\n' :: below => stringRest? style bound (skipBreaks bound below)
        | true, '\r' :: '\n' :: below => stringRest? style bound (skipBreaks bound below)
        | _, _ => do
            let (escaped, left) ← escape? rest
            goOn escaped left
      else if style.spansLines then
        match c, rest with
        | '\n', rest => goOn '\n' rest
        | '\r', '\n' :: rest => goOn '\n' rest
        | c, rest => if isPlain c then goOn c rest else none
      else if isPlain c then goOn c rest
      else none

def dropFirstBreak : List Char → List Char
  | '\n' :: rest => rest
  | '\r' :: '\n' :: rest => rest
  | chars => chars

def string? (chars : List Char) : Option (String × List Char) :=
  let read (style : Style) (rest : List Char) : Option (String × List Char) :=
    (stringRest? style (rest.length + 1) rest).map fun (text, left) => (String.ofList text, left)
  match chars with
  | '"' :: '"' :: '"' :: rest => read ⟨'"', true, true⟩ (dropFirstBreak rest)
  | '\x27' :: '\x27' :: '\x27' :: rest => read ⟨'\x27', true, false⟩ (dropFirstBreak rest)
  | '"' :: rest => read ⟨'"', false, true⟩ rest
  | '\x27' :: rest => read ⟨'\x27', false, false⟩ rest
  | _ => none

def isKeyChar (c : Char) : Bool :=
  c.isAlphanum || c == '_' || c == '-'

def keyPart? (chars : List Char) : Option (String × List Char) :=
  match chars with
  | '"' :: rest =>
      (stringRest? ⟨'"', false, true⟩ (rest.length + 1) rest).map fun (text, left) =>
        (String.ofList text, left)
  | '\x27' :: rest =>
      (stringRest? ⟨'\x27', false, false⟩ (rest.length + 1) rest).map fun (text, left) =>
        (String.ofList text, left)
  | _ =>
      let bare := chars.takeWhile isKeyChar
      if bare.isEmpty then none else some (String.ofList bare, chars.dropWhile isKeyChar)

def key? : Nat → List Char → Option (List String × List Char)
  | 0, _ => none
  | bound + 1, chars => do
      let (part, rest) ← keyPart? (skipSpace chars)
      match skipSpace rest with
      | '.' :: further => do
          let (parts, left) ← key? bound further
          some (part :: parts, left)
      | rest => some ([part], rest)

def isLiteralChar (c : Char) : Bool :=
  c.isAlphanum || ['_', '+', '-', '.', ':'].elem c

def bareValue? (chars : List Char) : Option (Json × List Char) := do
  let run := chars.takeWhile isLiteralChar
  let rest := chars.dropWhile isLiteralChar
  match isDate run, rest with
  | true, ' ' :: next :: further =>
      if next.isDigit then do
        let time := (next :: further).takeWhile isLiteralChar
        some (← literal? (run ++ ' ' :: time), (next :: further).dropWhile isLiteralChar)
      else some (← literal? run, rest)
  | _, _ => some (← literal? run, rest)

mutual

def value? : Nat → List Char → Option (Json × List Char)
  | 0, _ => none
  | bound + 1, chars =>
      match chars with
      | '"' :: _ => (string? chars).map fun (text, rest) => (.string text, rest)
      | '\x27' :: _ => (string? chars).map fun (text, rest) => (.string text, rest)
      | '[' :: rest => items? bound [] rest
      | '\x7b' :: rest =>
          match skipSpace rest with
          | '\x7d' :: rest => some (.object [], rest)
          | rest => fields? bound [] rest
      | _ => bareValue? chars

def items? : Nat → List Json → List Char → Option (Json × List Char)
  | 0, _, _ => none
  | bound + 1, before, chars =>
      match skipFiller chars.length chars with
      | ']' :: rest => some (.array before.reverse, rest)
      | chars => do
          let (item, rest) ← value? bound chars
          match skipFiller rest.length rest with
          | ',' :: rest => items? bound (item :: before) rest
          | ']' :: rest => some (.array (item :: before).reverse, rest)
          | _ => none

def fields? : Nat → Entries → List Char → Option (Json × List Char)
  | 0, _, _ => none
  | bound + 1, entries, chars => do
      let (path, rest) ← key? chars.length chars
      let rest ← expect? '=' rest
      let (value, rest) ← value? bound (skipSpace rest)
      let entries ← assign? value path entries
      match skipSpace rest with
      | ',' :: rest => fields? bound entries rest
      | '\x7d' :: rest => some (.object (entriesToJson entries), rest)
      | _ => none

end

structure Document where
  entries : Entries
  place : List String

def statement? (document : Document) (chars : List Char) : Option (Document × List Char) := do
  match chars with
  | '[' :: '[' :: rest => do
      let (path, rest) ← key? rest.length rest
      let rest ← endLine? (← expect? ']' (← expect? ']' rest))
      some (⟨← openElement? path document.entries, path⟩, rest)
  | '[' :: rest => do
      let (path, rest) ← key? rest.length rest
      let rest ← endLine? (← expect? ']' rest)
      some (⟨← openTable? path document.entries, path⟩, rest)
  | _ => do
      let (path, rest) ← key? chars.length chars
      let rest := skipSpace (← expect? '=' rest)
      let (value, rest) ← value? (rest.length + 1) rest
      let rest ← endLine? rest
      some (⟨← within? (assign? value path) document.place document.entries, document.place⟩, rest)

def statements? : Nat → Document → List Char → Option Document
  | 0, _, _ => none
  | bound + 1, document, chars =>
      match skipFiller chars.length chars with
      | [] => some document
      | chars => do
          let (document, rest) ← statement? document chars
          statements? bound document rest

def dropMark : List Char → List Char
  | '\uFEFF' :: rest => rest
  | chars => chars

def parse? (text : String) : Option (List (String × Json)) := do
  let chars := dropMark text.toList
  let document ← statements? (chars.length + 1) ⟨[], []⟩ chars
  some (entriesToJson document.entries)

end CodeInventory.Toml
