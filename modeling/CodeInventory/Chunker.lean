import CodeInventory.Config
import CodeInventory.FileTree
import CodeInventory.Gap
import CodeInventory.Walk

set_option autoImplicit false

namespace CodeInventory

abbrev SyntaxParser := String → Language → Option SyntaxTree

structure Survey where
  result : Except Halt Inventory
  events : List Event

def Survey.failed (fault : Fault) : Survey :=
  ⟨.error (.fault fault), []⟩

structure Chunker where
  config : Config
  sound : config.fault? = none

namespace Chunker

def validated (config : Config) : Except ConfigFault Chunker :=
  match sound : config.fault? with
  | none => .ok ⟨config, sound⟩
  | some fault => .error fault

def ofConfig (config : Config) : Except Fault Chunker :=
  (validated config).mapError fun fault => .invalidConfig fault.message

def complete (chunker : Chunker) (source : String) (inventory : Inventory) : Inventory :=
  { inventory with
    otherBlocks := Gap.texts inventory.lineRanges source chunker.config.emitBlankGaps }

def rules (chunker : Chunker) (source : String) (language : Language) : WalkRules :=
  { language
    source := source.toUTF8
    policy := chunker.config.collisionPolicy
    maxDepth := chunker.config.maxDepth }

def ofTree (chunker : Chunker) (source : String) (language : Language) (tree : SyntaxTree) :
    Survey :=
  let outcome := walk (chunker.rules source language) .empty tree
  match outcome.halt with
  | some halt => ⟨.error halt, outcome.events⟩
  | none =>
      let inventory := chunker.complete source outcome.inventory
      ⟨.ok inventory, outcome.events ++ [.finished language inventory.tally]⟩

-- The inventory of a text. The configuration must admit its language before a grammar is asked for.
def ofText (chunker : Chunker) (parse : SyntaxParser) (source : String) (language : Language) :
    Survey :=
  if !chunker.config.admits language || !language.hasGrammar then
    .failed (.unsupportedLanguage language.name)
  else
    match parse source language with
    | none => .failed (.unparsable ("Failed to parse " ++ language.name ++ " source"))
    | some tree => chunker.ofTree source language tree

def ofNamedText (chunker : Chunker) (parse : SyntaxParser) (source identifier : String) : Survey :=
  match Language.ofIdentifier? identifier with
  | none => .failed (.unsupportedLanguage identifier)
  | some language => chunker.ofText parse source language

def ofFile (chunker : Chunker) (parse : SyntaxParser) (read : FileReader)
    (path : List UInt8) : Survey :=
  let language := Path.language path
  if !language.hasGrammar then
    .failed (.unsupportedLanguage ((Path.extensionText? path).getD language.name))
  else
    match read.text path with
    | .error fault => .failed (.file fault)
    | .ok source => chunker.ofText parse source language

end Chunker

end CodeInventory
