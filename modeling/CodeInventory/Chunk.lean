set_option autoImplicit false

namespace CodeInventory

structure Chunk where
  code : String
  startLine : Nat
  endLine : Nat
deriving DecidableEq, Repr

namespace Chunk

-- A chunk whose end precedes its start still counts one line.
def lineCount (chunk : Chunk) : Nat :=
  (chunk.endLine - chunk.startLine) + 1

def range (chunk : Chunk) : Nat × Nat :=
  (chunk.startLine, chunk.endLine)

end Chunk

structure NamedChunk where
  name : String
  chunk : Chunk
deriving DecidableEq, Repr

end CodeInventory
