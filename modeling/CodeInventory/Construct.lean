import CodeInventory.Category
import CodeInventory.Chunk
import CodeInventory.Marker

set_option autoImplicit false

namespace CodeInventory

inductive ConstructKind where
  | importStatement
  | topLevelVariable
  | typeDefinition
  | functionLike
  | classLike
  | markupElement
deriving DecidableEq, Repr

namespace ConstructKind

def all : List ConstructKind :=
  [.importStatement, .topLevelVariable, .typeDefinition, .functionLike, .classLike, .markupElement]

def title : ConstructKind → String
  | .importStatement => "Import"
  | .topLevelVariable => "TopLevelVariable"
  | .typeDefinition => "TypeAliasOrInterface"
  | .functionLike => "FunctionLike"
  | .classLike => "ClassLike"
  | .markupElement => "MarkupElement"

def ofTitle? (title : String) : Option ConstructKind :=
  all.find? fun kind => kind.title == title

end ConstructKind

structure Construct where
  kind : ConstructKind
  name : Option String
  chunk : Chunk
deriving DecidableEq, Repr

namespace Construct

def anonymous : String := "<anonymous>"

def entryName (construct : Construct) : String :=
  construct.name.getD anonymous

-- For functions the mark of a hook counts before that of a component, and that before `async`.
def category (construct : Construct) : Category :=
  match construct.kind with
  | .importStatement => .imports
  | .topLevelVariable => .globalVariables
  | .typeDefinition => .typeDefinitions
  | .markupElement => .jsxElements
  | .functionLike =>
      if Marker.isHook construct.entryName then .hooks
      else if Marker.isComponent construct.chunk.code then .components
      else if Marker.isAsync construct.chunk.code then .asyncFunctions
      else .functions
  | .classLike =>
      if Marker.isComponent construct.chunk.code then .components else .classes

end Construct

end CodeInventory
