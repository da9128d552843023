import CodeInventory.Inventory
import CodeInventory.Json

set_option autoImplicit false

namespace CodeInventory

-- A chunk or an inventory may also be given as an array of its parts in the order of writing.

def Category.ofJson? (json : Json) : Option Category := do
  ofKey? (← json.choice? Json.isNull)

namespace Chunk

def fields (chunk : Chunk) : List (String × Json) :=
  [("code", .string chunk.code), ("start_line", .nat chunk.startLine),
    ("end_line", .nat chunk.endLine)]

def toJson (chunk : Chunk) : Json :=
  .object chunk.fields

def ofParts? (code startLine endLine : Json) : Option Chunk := do
  some ⟨← code.string?, ← startLine.word?, ← endLine.word?⟩

def ofFields? (fields : List (String × Json)) : Option Chunk := do
  ofParts? (← Json.get? fields "code") (← Json.get? fields "start_line")
    (← Json.get? fields "end_line")

def ofJson? : Json → Option Chunk
  | .object fields => ofFields? fields
  | .array [code, startLine, endLine] => ofParts? code startLine endLine
  | _ => none

end Chunk

namespace NamedChunk

def toJson (named : NamedChunk) : Json :=
  .object (("name", .string named.name) :: named.chunk.fields)

def ofJson? : Json → Option NamedChunk
  | .object fields => do
      some ⟨← (← Json.get? fields "name").string?, ← Chunk.ofFields? fields⟩
  | _ => none

end NamedChunk

namespace Roster

def toJson (roster : Roster) : Json :=
  .object (roster.entries.map fun entry => (entry.1, entry.2.toJson))

def ofJson? : Json → Option Roster
  | .object fields => do
      let entries ← fields.mapM fun field =>
        (Chunk.ofJson? field.2).map fun chunk => (field.1, chunk)
      some (ofList entries)
  | _ => none

end Roster

namespace Inventory

def slotToJson (inventory : Inventory) : Category → Json
  | .imports => .array (inventory.imports.map Chunk.toJson)
  | .globalVariables => .array (inventory.globalVariables.map Chunk.toJson)
  | .typeDefinitions => .array (inventory.typeDefinitions.map NamedChunk.toJson)
  | .functions => inventory.functions.toJson
  | .asyncFunctions => inventory.asyncFunctions.toJson
  | .classes => inventory.classes.toJson
  | .hooks => inventory.hooks.toJson
  | .components => inventory.components.toJson
  | .jsxElements => .array (inventory.jsxElements.map Chunk.toJson)
  | .otherBlocks => .array (inventory.otherBlocks.map .string)

def toJson (inventory : Inventory) : Json :=
  .object (Category.all.map fun category => (category.key, inventory.slotToJson category))

def ofSlots? (slot? : Category → Option Json) : Option Inventory := do
  let imports ← (← slot? .imports).list? Chunk.ofJson?
  let globalVariables ← (← slot? .globalVariables).list? Chunk.ofJson?
  let typeDefinitions ← (← slot? .typeDefinitions).list? NamedChunk.ofJson?
  let functions ← Roster.ofJson? (← slot? .functions)
  let asyncFunctions ← Roster.ofJson? (← slot? .asyncFunctions)
  let classes ← Roster.ofJson? (← slot? .classes)
  let hooks ← Roster.ofJson? (← slot? .hooks)
  let components ← Roster.ofJson? (← slot? .components)
  let jsxElements ← (← slot? .jsxElements).list? Chunk.ofJson?
  let otherBlocks ← (← slot? .otherBlocks).list? Json.string?
  some { imports, globalVariables, typeDefinitions, functions, asyncFunctions, classes, hooks,
         components, jsxElements, otherBlocks }

def ofJson? : Json → Option Inventory
  | .object fields => ofSlots? fun category => Json.get? fields category.key
  | .array items =>
      if items.length = Category.all.length then
        ofSlots? fun category => (Category.all.zip items).lookup category
      else none
  | _ => none

end Inventory

end CodeInventory
