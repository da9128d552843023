import CodeInventory.Text.Blank
import CodeInventory.Text.Letters

set_option autoImplicit false

namespace CodeInventory

inductive Language where
  | rust
  | python
  | javaScript
  | typeScript
  | tsx
  | go
  | java
  | c
  | cpp
  | cSharp
  | ruby
  | swift
  | kotlin
  | unknown
deriving DecidableEq, Repr

namespace Language

def all : List Language :=
  [.rust, .python, .javaScript, .typeScript, .tsx, .go, .java, .c, .cpp, .cSharp, .ruby, .swift,
    .kotlin, .unknown]

def name : Language → String
  | .rust => "rust"
  | .python => "python"
  | .javaScript => "javascript"
  | .typeScript => "typescript"
  | .tsx => "tsx"
  | .go => "go"
  | .java => "java"
  | .c => "c"
  | .cpp => "cpp"
  | .cSharp => "csharp"
  | .ruby => "ruby"
  | .swift => "swift"
  | .kotlin => "kotlin"
  | .unknown => "unknown"

def identifiers : List (String × Language) :=
  [("rust", .rust), ("rs", .rust),
    ("python", .python), ("py", .python),
    ("javascript", .javaScript), ("js", .javaScript), ("jsx", .javaScript),
    ("typescript", .typeScript), ("ts", .typeScript),
    ("tsx", .tsx),
    ("go", .go), ("golang", .go),
    ("java", .java),
    ("c", .c),
    ("cpp", .cpp), ("c++", .cpp),
    ("csharp", .cSharp), ("c#", .cSharp), ("cs", .cSharp),
    ("ruby", .ruby), ("rb", .ruby),
    ("swift", .swift),
    ("kotlin", .kotlin), ("kt", .kotlin)]

def extensions : List (String × Language) :=
  [("rs", .rust),
    ("py", .python), ("pyw", .python), ("pyi", .python),
    ("js", .javaScript), ("jsx", .javaScript), ("mjs", .javaScript), ("cjs", .javaScript),
    ("ts", .typeScript), ("mts", .typeScript), ("cts", .typeScript),
    ("tsx", .tsx),
    ("go", .go),
    ("java", .java),
    ("c", .c), ("h", .c),
    ("cpp", .cpp), ("cc", .cpp), ("cxx", .cpp), ("hpp", .cpp), ("hh", .cpp), ("hxx", .cpp),
    ("cs", .cSharp),
    ("rb", .ruby),
    ("swift", .swift),
    ("kt", .kotlin), ("kts", .kotlin)]

def ofIdentifier? (text : String) : Option Language :=
  identifiers.lookup (Text.lower (Text.trim text))

def ofExtension (extension : String) : Language :=
  (extensions.lookup (Text.lower extension)).getD .unknown

def ofName? (name : String) : Option Language :=
  all.find? fun language => language.name == name

def hasGrammar : Language → Bool
  | .rust | .python | .javaScript | .typeScript | .tsx => true
  | _ => false

end Language

end CodeInventory
