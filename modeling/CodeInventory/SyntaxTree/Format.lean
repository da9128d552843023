import CodeInventory.Json
import CodeInventory.SyntaxTree

set_option autoImplicit false

namespace CodeInventory

-- A row for each node, a parent before its children: the depth, the kind, the field or null, 1 for
-- a named node and 0 for another, and the six numbers of the span.

def Label.fieldOfJson? : Json → Option (Option String)
  | .null => some none
  | .string field => some (some field)
  | _ => none

def Label.ofRow? : Json → Option (Nat × Label)
  | .array [depth, kind, field, named, startByte, endByte, startRow, startColumn, endRow,
      endColumn] => do
      let span : Span :=
        ⟨← startByte.word?, ← endByte.word?, ← startRow.word?, ← startColumn.word?,
          ← endRow.word?, ← endColumn.word?⟩
      some (← depth.word?, ⟨← kind.string?, ← fieldOfJson? field, (← named.word?) = 1, span⟩)
  | _ => none

def SyntaxTree.ofJson? (json : Json) : Option SyntaxTree := do
  ofNodes? (← json.list? Label.ofRow?)

end CodeInventory
