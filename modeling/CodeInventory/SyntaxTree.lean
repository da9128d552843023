import CodeInventory.Fault
import CodeInventory.Text.Utf8

set_option autoImplicit false

namespace CodeInventory

-- Octet offsets are half open; rows and columns count from zero.
structure Span where
  startByte : Nat
  endByte : Nat
  startRow : Nat
  startColumn : Nat
  endRow : Nat
  endColumn : Nat
deriving DecidableEq, Repr

def Span.Within (span : Span) (size : Nat) : Prop :=
  span.startByte ≤ span.endByte ∧ span.endByte ≤ size

instance (span : Span) : DecidablePred span.Within :=
  fun _ => inferInstanceAs (Decidable (_ ∧ _))

-- The field is the role that the parent gives to the node.
structure Label where
  kind : String
  field : Option String
  named : Bool
  span : Span
deriving DecidableEq, Repr

inductive SyntaxTree where
  | node (label : Label) (children : List SyntaxTree)
deriving Repr

namespace SyntaxTree

def label : SyntaxTree → Label
  | node label _ => label

def children : SyntaxTree → List SyntaxTree
  | node _ children => children

def kind (tree : SyntaxTree) : String :=
  tree.label.kind

def span (tree : SyntaxTree) : Span :=
  tree.label.span

def childInField? (tree : SyntaxTree) (field : String) : Option SyntaxTree :=
  tree.children.find? fun child => child.label.field == some field

def firstNamedChild? (tree : SyntaxTree) : Option SyntaxTree :=
  tree.children.find? fun child => child.label.named

-- These are all octets of the span only if the source has them, which `read` makes sure of.
def octets (tree : SyntaxTree) (source : ByteArray) : List UInt8 :=
  (source.extract tree.span.startByte tree.span.endByte).data.toList

def text (tree : SyntaxTree) (source : ByteArray) : String :=
  Text.decodeLenient (tree.octets source)

-- A span that the source does not have aborts the program.
def read (tree : SyntaxTree) (source : ByteArray) : Except Panic String :=
  if tree.span.Within source.size then .ok (tree.text source)
  else .error (.badRange tree.span.startByte tree.span.endByte source.size)

mutual

def size : SyntaxTree → Nat
  | node _ children => 1 + sizeAll children

def sizeAll : List SyntaxTree → Nat
  | [] => 0
  | tree :: rest => size tree + sizeAll rest

end

mutual

def nodes (depth : Nat) : SyntaxTree → List (Nat × SyntaxTree)
  | node label children => (depth, node label children) :: nodesOfAll (depth + 1) children

def nodesOfAll (depth : Nat) : List SyntaxTree → List (Nat × SyntaxTree)
  | [] => []
  | tree :: rest => nodes depth tree ++ nodesOfAll depth rest

end

-- Puts a node before the trees that follow it. The deeper trees at the front become its children.
def adopt (entry : Nat × Label) (following : List (Nat × SyntaxTree)) : List (Nat × SyntaxTree) :=
  let (depth, label) := entry
  let (below, rest) := following.span fun other => depth < other.1
  (depth, node label (below.map Prod.snd)) :: rest

def ofNodes? (entries : List (Nat × Label)) : Option SyntaxTree :=
  match entries.foldr adopt [] with
  | [(0, tree)] => some tree
  | _ => none

end SyntaxTree

end CodeInventory
