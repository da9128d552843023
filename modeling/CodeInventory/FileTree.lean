import CodeInventory.Fault
import CodeInventory.Path

set_option autoImplicit false

namespace CodeInventory

abbrev FileReader := List UInt8 → Except FileFault (List UInt8)

def FileReader.text (read : FileReader) (path : List UInt8) : Except FileFault String := do
  match Text.decodeStrict? (← read path) with
  | some text => .ok text
  | none => .error .notUtf8

inductive FileEntry where
  | directory
  | file (octets : List UInt8)
deriving DecidableEq, Repr

-- Entries by the names that lead to them. The directories on the way exist without an entry.
structure FileTree where
  entries : List (List (List UInt8) × FileEntry)
deriving DecidableEq, Repr

namespace FileTree

def ofPaths (paths : List (List UInt8 × FileEntry)) : FileTree :=
  ⟨paths.map fun (path, entry) =>
    ((Path.segments path).filter fun segment => segment ≠ [] ∧ segment ≠ [Path.dot], entry)⟩

def find? (tree : FileTree) (names : List (List UInt8)) : Option FileEntry :=
  if names = [] then some .directory
  else
    match tree.entries.lookup names with
    | some entry => some entry
    | none =>
        if tree.entries.any fun entry => names.isPrefixOf entry.1 then some .directory else none

def longestName : Nat := 255

-- Every segment of a path, an empty one too, asks for a directory to start from.
def follow (tree : FileTree) :
    List (List UInt8) → List (List UInt8) → Except FileFault (List (List UInt8))
  | place, [] => .ok place
  | place, segment :: rest =>
      match tree.find? place with
      | none => .error .notFound
      | some (.file _) => .error .notDirectory
      | some .directory =>
          if segment = [] ∨ segment = [Path.dot] then follow tree place rest
          else if segment = [Path.dot, Path.dot] then follow tree place.dropLast rest
          else if longestName < segment.length then .error .nameTooLong
          else follow tree (place ++ [segment]) rest

def read (tree : FileTree) : FileReader := fun path =>
  if path.elem 0 then .error .nulInName
  else
    match Path.segments path with
    | [] => .error .notFound
    | [] :: _ => .error .notFound
    | segments => do
        match tree.find? (← follow tree [] segments) with
        | some (.file octets) => .ok octets
        | some .directory => .error .isDirectory
        | none => .error .notFound

end FileTree

end CodeInventory
