import Mathlib.Data.List.Basic
import CodeInventory.Path
import CodeInventory.Proofs.Utf8

set_option autoImplicit false

namespace CodeInventory

namespace Text

section

variable {α : Type} [DecidableEq α] {separator item : α} {items front piece : List α}

end

end Text

namespace Path

open Text

variable {path segment : List UInt8} {part : Part} {i : Nat}

end Path

end CodeInventory
