set_option autoImplicit false

namespace CodeInventory

inductive Category where
  | imports
  | globalVariables
  | typeDefinitions
  | functions
  | asyncFunctions
  | classes
  | hooks
  | components
  | jsxElements
  | otherBlocks
deriving DecidableEq, Repr

namespace Category

def all : List Category :=
  [.imports, .globalVariables, .typeDefinitions, .functions, .asyncFunctions, .classes, .hooks,
    .components, .jsxElements, .otherBlocks]

def key : Category → String
  | .imports => "imports"
  | .globalVariables => "global_variables"
  | .typeDefinitions => "type_definitions"
  | .functions => "functions"
  | .asyncFunctions => "async_functions"
  | .classes => "classes"
  | .hooks => "hooks"
  | .components => "components"
  | .jsxElements => "jsx_elements"
  | .otherBlocks => "other_blocks"

def ofKey? (key : String) : Option Category :=
  all.find? fun category => category.key == key

end Category

end CodeInventory
