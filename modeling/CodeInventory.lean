import CodeInventory.Category
import CodeInventory.Chunk
import CodeInventory.Chunker
import CodeInventory.CollisionPolicy
import CodeInventory.CommandLine
import CodeInventory.CommandLine.Arguments
import CodeInventory.CommandLine.LogFilter
import CodeInventory.Config
import CodeInventory.Config.Format
import CodeInventory.Construct
import CodeInventory.Event
import CodeInventory.Fault
import CodeInventory.FileTree
import CodeInventory.Gap
import CodeInventory.Inventory
import CodeInventory.Inventory.Format
import CodeInventory.Json
import CodeInventory.Json.Printer
import CodeInventory.Json.Reader
import CodeInventory.Json.Token
import CodeInventory.Language
import CodeInventory.Main
import CodeInventory.Marker
import CodeInventory.Path
import CodeInventory.Recognition
import CodeInventory.Roster
import CodeInventory.SyntaxTree
import CodeInventory.SyntaxTree.Format
import CodeInventory.Text.Blank
import CodeInventory.Text.Digit
import CodeInventory.Text.Letters
import CodeInventory.Text.Lines
import CodeInventory.Text.Quoted
import CodeInventory.Text.Split
import CodeInventory.Text.Uppercase
import CodeInventory.Text.Utf8
import CodeInventory.Toml
import CodeInventory.Toml.Literal
import CodeInventory.Toml.Table
import CodeInventory.Walk
import CodeInventory.Proofs.Address
import CodeInventory.Proofs.Filling
import CodeInventory.Proofs.Record
import CodeInventory.Proofs.Trail
import CodeInventory.Proofs.Recording
import CodeInventory.Proofs.Exposure
import CodeInventory.Proofs.GreedyWalk
import CodeInventory.Proofs.DepthLimit
import CodeInventory.Proofs.StrictWalk
import CodeInventory.Proofs.GapSweep
import CodeInventory.Proofs.LineAccounting
import CodeInventory.Proofs.StackWalk
import CodeInventory.Proofs.Settings
import CodeInventory.Proofs.Layout
import CodeInventory.Proofs.Survivors
import CodeInventory.Proofs.SourceOrder
import CodeInventory.Proofs.Utf8
import CodeInventory.Proofs.Glyphs
import CodeInventory.Proofs.GapText
import CodeInventory.Proofs.Sites
import CodeInventory.Proofs.TextConservation
import CodeInventory.Proofs.Placement
import CodeInventory.Proofs.Balance
import CodeInventory.Proofs.CommandRun
import CodeInventory.Proofs.JsonTokens
import CodeInventory.Proofs.JsonText
import CodeInventory.Proofs.JsonFields
import CodeInventory.Proofs.InventoryText
import CodeInventory.Proofs.CheckedSweep
import CodeInventory.Proofs.GapRuns
import CodeInventory.Proofs.LooseText
import CodeInventory.Proofs.Presentation
import CodeInventory.Proofs.LineSpan
import CodeInventory.Proofs.Markup
import CodeInventory.Proofs.Coverage
import CodeInventory.Proofs.LanguageNames
import CodeInventory.Proofs.Slots
import CodeInventory.Proofs.ComponentMarks
import CodeInventory.Proofs.ShownPath
