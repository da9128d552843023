import CodeInventory.Category
import CodeInventory.Roster

set_option autoImplicit false

namespace CodeInventory

structure Inventory where
  imports : List Chunk
  globalVariables : List Chunk
  typeDefinitions : List NamedChunk
  functions : Roster
  asyncFunctions : Roster
  classes : Roster
  hooks : Roster
  components : Roster
  jsxElements : List Chunk
  otherBlocks : List String
deriving DecidableEq

structure Tally where
  counts : List (Category × Nat)
  coveredLines : Nat
deriving DecidableEq, Repr

namespace Tally

def count (tally : Tally) (category : Category) : Nat :=
  (tally.counts.lookup category).getD 0

def summary (tally : Tally) : String :=
  let parts := tally.counts.filterMap fun (category, n) =>
    if n = 0 then none else some (category.key ++ ": " ++ toString n)
  let shown := if parts = [] then "empty" else " | ".intercalate parts
  shown ++ " | covered lines: " ++ toString tally.coveredLines

end Tally

def total (counts : List Nat) : Nat :=
  counts.foldr (· + ·) 0

namespace Inventory

def empty : Inventory :=
  ⟨[], [], [], .empty, .empty, .empty, .empty, .empty, [], []⟩

def rosters (inventory : Inventory) : List Roster :=
  [inventory.functions, inventory.asyncFunctions, inventory.classes, inventory.hooks,
    inventory.components]

def chunks (inventory : Inventory) : List Chunk :=
  inventory.imports ++ inventory.globalVariables ++
    inventory.typeDefinitions.map NamedChunk.chunk ++ inventory.jsxElements ++
    inventory.rosters.flatMap Roster.chunks

def lineRanges (inventory : Inventory) : List (Nat × Nat) :=
  inventory.chunks.map Chunk.range

def count (inventory : Inventory) : Category → Nat
  | .imports => inventory.imports.length
  | .globalVariables => inventory.globalVariables.length
  | .typeDefinitions => inventory.typeDefinitions.length
  | .functions => inventory.functions.size
  | .asyncFunctions => inventory.asyncFunctions.size
  | .classes => inventory.classes.size
  | .hooks => inventory.hooks.size
  | .components => inventory.components.size
  | .jsxElements => inventory.jsxElements.length
  | .otherBlocks => inventory.otherBlocks.length

def chunkCount (inventory : Inventory) : Nat :=
  total ((Category.all.filter (· ≠ .otherBlocks)).map inventory.count)

def isEmpty (inventory : Inventory) : Bool :=
  Category.all.all fun category => inventory.count category == 0

def tally (inventory : Inventory) : Tally :=
  { counts := Category.all.map fun category => (category, inventory.count category)
    coveredLines := total (inventory.chunks.map Chunk.lineCount) }

end Inventory

end CodeInventory
