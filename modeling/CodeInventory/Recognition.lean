import CodeInventory.Construct
import CodeInventory.Language
import CodeInventory.SyntaxTree

set_option autoImplicit false

namespace CodeInventory

-- Variables and assignments count only at file scope, which is depth one: directly below the root.

inductive Tag where
  | importing
  | declaration
  | statement
  | typeAlias
  | interface
  | function
  | classLike
  | implementation
  | markup
deriving DecidableEq, Repr

namespace Tag

def ofScript : List (String × Tag) :=
  [("import_statement", .importing),
    ("lexical_declaration", .declaration), ("variable_declaration", .declaration),
    ("type_alias_declaration", .typeAlias),
    ("interface_declaration", .interface),
    ("function_declaration", .function), ("generator_function_declaration", .function),
    ("class_declaration", .classLike), ("abstract_class_declaration", .classLike),
    ("jsx_element", .markup), ("jsx_self_closing_element", .markup)]

def ofPython : List (String × Tag) :=
  [("import_statement", .importing), ("import_from_statement", .importing),
    ("future_import_statement", .importing),
    ("expression_statement", .statement),
    ("type_alias_statement", .typeAlias),
    ("function_definition", .function),
    ("class_definition", .classLike)]

def ofRust : List (String × Tag) :=
  [("use_declaration", .importing), ("extern_crate_declaration", .importing),
    ("const_item", .declaration), ("static_item", .declaration),
    ("type_item", .typeAlias),
    ("trait_item", .interface),
    ("function_item", .function),
    ("struct_item", .classLike), ("enum_item", .classLike), ("union_item", .classLike),
    ("impl_item", .implementation)]

def table : Language → List (String × Tag)
  | .javaScript | .typeScript | .tsx => ofScript
  | .python => ofPython
  | .rust => ofRust
  | _ => []

end Tag

namespace Recognition

def wrapsAssignment (tree : SyntaxTree) : Bool :=
  match tree.firstNamedChild? with
  | some child => ["assignment", "augmented_assignment"].elem child.kind
  | none => false

-- The first and last line of a node. A node that ends before the first column of a later row ends
-- on the row above.
def lineSpan (span : Span) : Nat × Nat :=
  let endRow :=
    if span.endColumn = 0 ∧ span.startRow < span.endRow then span.endRow - 1 else span.endRow
  (span.startRow + 1, endRow + 1)

def nameKinds : List String :=
  ["identifier", "type_identifier", "name", "property_identifier"]

def readName? (source : ByteArray) : Option SyntaxTree → Except Panic (Option String)
  | none => .ok none
  | some tree => (tree.read source).map some

def nameNode? (tree : SyntaxTree) : Option SyntaxTree :=
  (tree.childInField? "name").or (tree.children.find? fun child => nameKinds.elem child.kind)

def declaredName? (source : ByteArray) (tree : SyntaxTree) : Except Panic (Option String) :=
  readName? source (nameNode? tree)

def aliasName? (source : ByteArray) (tree : SyntaxTree) : Except Panic (Option String) :=
  readName? source ((tree.childInField? "left").or (nameNode? tree))

-- An implementation block is named for its type and, if it has one, its trait.
def implementationName? (source : ByteArray) (tree : SyntaxTree) :
    Except Panic (Option String) := do
  match ← readName? source (tree.childInField? "type") with
  | none => .ok none
  | some target =>
      match ← readName? source (tree.childInField? "trait") with
      | some interface => .ok (some ("impl " ++ interface ++ " for " ++ target))
      | none => .ok (some ("impl " ++ target))

-- The kind and name of a node with the given tag, unless its surroundings rule it out.
def describe? (source : ByteArray) (depth : Nat) (tree : SyntaxTree) :
    Tag → Except Panic (Option (ConstructKind × Option String))
  | .importing => .ok (some (.importStatement, none))
  | .declaration => .ok (if depth = 1 then some (.topLevelVariable, none) else none)
  | .statement =>
      .ok (if depth = 1 ∧ wrapsAssignment tree then some (.topLevelVariable, none) else none)
  | .typeAlias => (aliasName? source tree).map fun name => some (.typeDefinition, name)
  | .interface => (declaredName? source tree).map fun name => some (.typeDefinition, name)
  | .function => (declaredName? source tree).map fun name => some (.functionLike, name)
  | .classLike => (declaredName? source tree).map fun name => some (.classLike, name)
  | .implementation => (implementationName? source tree).map fun name => some (.classLike, name)
  | .markup => .ok (some (.markupElement, none))

def chunkOf (code : String) (span : Span) : Chunk :=
  let (startLine, endLine) := lineSpan span
  ⟨code, startLine, endLine⟩

def classify (language : Language) (source : ByteArray) (depth : Nat) (tree : SyntaxTree) :
    Except Panic (Option Construct) := do
  match (Tag.table language).lookup tree.kind with
  | none => .ok none
  | some tag =>
      match ← describe? source depth tree tag with
      | none => .ok none
      | some (kind, name) =>
          let code ← tree.read source
          .ok (some ⟨kind, name, chunkOf code tree.span⟩)

end Recognition

end CodeInventory
