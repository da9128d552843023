import CodeInventory.Text.Blank
import CodeInventory.Text.Lines

set_option autoImplicit false

namespace CodeInventory

structure Gap where
  startLine : Nat
  endLine : Nat
  text : String
deriving DecidableEq, Repr

namespace Gap

def rangeBefore (left right : Nat × Nat) : Bool :=
  left.1 < right.1 || (left.1 == right.1 && left.2 ≤ right.2)

def insertRange (range : Nat × Nat) : List (Nat × Nat) → List (Nat × Nat)
  | [] => [range]
  | other :: rest =>
      if rangeBefore range other then range :: other :: rest else other :: insertRange range rest

def sortRanges (ranges : List (Nat × Nat)) : List (Nat × Nat) :=
  ranges.foldr insertRange []

-- The stretches between sorted ranges, where `covered` is the last line covered so far. A stretch
-- may reach past the last line.
def stretches (lineCount : Nat) : Nat → List (Nat × Nat) → List (Nat × Nat)
  | covered, [] => if covered < lineCount then [(covered + 1, lineCount)] else []
  | covered, (first, last) :: rest =>
      let further := stretches lineCount (max covered last) rest
      if covered + 1 < first then (covered + 1, first - 1) :: further else further

def textOf (lines : List (List Char)) (startLine endLine : Nat) : String :=
  String.ofList (Text.trimChars (Text.joinLines ((lines.take endLine).drop (startLine - 1))))

def ofStretch? (lines : List (List Char)) (stretch : Nat × Nat) : Option Gap :=
  let startLine := stretch.1
  let endLine := min stretch.2 lines.length
  if startLine ≤ endLine then some ⟨startLine, endLine, textOf lines startLine endLine⟩ else none

-- The gaps that ranges of lines leave in a source, blank ones only on demand. The ranges may come
-- in any order, overlap, be empty or reach past the end.
def find (ranges : List (Nat × Nat)) (source : String) (keepBlank : Bool) : List Gap :=
  let lines := Text.lines source.toList
  let gaps := (stretches lines.length 0 (sortRanges ranges)).filterMap (ofStretch? lines)
  gaps.filter fun gap => keepBlank || gap.text ≠ ""

def texts (ranges : List (Nat × Nat)) (source : String) (keepBlank : Bool) : List String :=
  (find ranges source keepBlank).map Gap.text

end Gap

end CodeInventory
