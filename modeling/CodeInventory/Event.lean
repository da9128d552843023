import CodeInventory.Construct
import CodeInventory.Inventory
import CodeInventory.Language

set_option autoImplicit false

namespace CodeInventory

inductive Level where
  | error
  | warn
  | info
  | debug
  | trace
deriving DecidableEq, Repr

namespace Level

def detail : Level → Nat
  | .error => 1
  | .warn => 2
  | .info => 3
  | .debug => 4
  | .trace => 5

def title : Level → String
  | .error => "ERROR"
  | .warn => "WARN"
  | .info => "INFO"
  | .debug => "DEBUG"
  | .trace => "TRACE"

end Level

inductive Event where
  | started (shown : String) (language : Language)
  | found (construct : Construct)
  | replaced (category : Category) (name : String) (current previous : Nat × Nat)
  | finished (language : Language) (tally : Tally)
deriving DecidableEq, Repr

namespace Event

def level : Event → Level
  | .started .. => .info
  | .found _ => .trace
  | .replaced .. => .debug
  | .finished .. => .debug

def target : Event → String
  | .started .. => "kaizen_chunk"
  | .found _ => "kaizen_code_chunker::walker"
  | .replaced .. => "kaizen_code_chunker::walker"
  | .finished .. => "kaizen_code_chunker::chunker"

def showRange (range : Nat × Nat) : String :=
  toString range.1 ++ "-" ++ toString range.2

def text : Event → String
  | .started shown language => "Chunking " ++ shown ++ " as " ++ language.name
  | .found construct =>
      construct.kind.title ++ " " ++ construct.name.getD "-" ++ " at lines " ++
        showRange construct.chunk.range
  | .replaced category name current previous =>
      category.key ++ " `" ++ name ++ "` at lines " ++ showRange current ++ " replaces lines " ++
        showRange previous
  | .finished language tally => "Chunked " ++ language.name ++ " source: " ++ tally.summary

end Event

end CodeInventory
