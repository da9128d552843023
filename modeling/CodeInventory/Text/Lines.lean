import CodeInventory.Text.Split

set_option autoImplicit false

namespace CodeInventory.Text

-- One carriage return directly before a line feed belongs to the ending of the line, and a final
-- line feed starts no further line.

structure LineScan where
  atFeed : Bool
  lines : List (List Char)

def LineScan.step (c : Char) (scan : LineScan) : LineScan :=
  if c = '\n' then ⟨true, [] :: scan.lines⟩
  else if c = '\r' ∧ scan.atFeed then ⟨false, scan.lines⟩
  else ⟨false, extendFirst c scan.lines⟩

def lines (chars : List Char) : List (List Char) :=
  (chars.foldr LineScan.step ⟨false, []⟩).lines

def joinLines (lines : List (List Char)) : List Char :=
  ['\n'].intercalate lines

def hang (text : String) : String :=
  String.ofList (text.toList.flatMap fun c =>
    if c = '\n' then ['\n', ' ', ' ', ' ', ' '] else [c])

end CodeInventory.Text
