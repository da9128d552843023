import CodeInventory.Proofs.SourceOrder

set_option autoImplicit false

namespace CodeInventory

open Inventory

def Category.Marked : Category → String → Chunk → Prop
  | .hooks, name, _ => Marker.isHook name
  | .functions, name, chunk =>
      ¬ Marker.isHook name ∧ ¬ Marker.isComponent chunk.code ∧ ¬ Marker.isAsync chunk.code
  | .asyncFunctions, name, chunk =>
      ¬ Marker.isHook name ∧ ¬ Marker.isComponent chunk.code ∧ Marker.isAsync chunk.code
  | .components, _, chunk => Marker.isComponent chunk.code
  | .classes, _, chunk => ¬ Marker.isComponent chunk.code
  | _, _, _ => True

theorem Construct.marked (construct : Construct) :
    construct.category.Marked construct.entryName construct.chunk := by
  unfold category
  cases construct.kind with
  | functionLike =>
    by_cases hook : Marker.isHook construct.entryName
    · simp [hook, Category.Marked]
    · by_cases component : Marker.isComponent construct.chunk.code
      · simp [hook, component, Category.Marked]
      · by_cases async : Marker.isAsync construct.chunk.code <;>
          simp [hook, component, async, Category.Marked]
  | classLike =>
    by_cases component : Marker.isComponent construct.chunk.code <;>
      simp [component, Category.Marked]
  | _ => trivial

namespace Inventory

structure WellPlaced (inventory : Inventory) : Prop where
  entries : ∀ category name chunk, inventory.chunkUnder? category name = some chunk →
    category.Marked name chunk
  otherBlocks : inventory.otherBlocks = []

theorem wellPlaced_empty : empty.WellPlaced where
  entries category name chunk held := by cases category <;> simp [chunkUnder?, roster?, empty] at held
  otherBlocks := rfl

theorem FilledBy.wellPlaced {before after : Inventory} {constructs : List Construct}
    (filled : FilledBy before after constructs) (placed : before.WellPlaced) :
    after.WellPlaced where
  entries category name chunk held := by
    have keyed := mem_keyed_of_chunkUnder? (Option.isSome_of_eq_some held)
    rw [filled.entries category keyed, Option.or_eq_some_iff] at held
    rcases held with last | ⟨-, old⟩
    -- The entry is stored under the name that its category was told by.
    · obtain ⟨construct, -, rfl, rfl, rfl⟩ := mem_of_latest? last
      exact construct.marked
    · exact placed.entries category name chunk old
  otherBlocks := filled.otherBlocks.trans placed.otherBlocks

end Inventory

namespace Walk

def walkAll (inventory : Inventory) : List (WalkRules × SyntaxTree) → Inventory
  | [] => inventory
  | (rules, tree) :: rest => walkAll (walk rules inventory tree).inventory rest

theorem walk_wellPlaced {before : Inventory} (placed : before.WellPlaced) (rules : WalkRules)
    (tree : SyntaxTree) : (walk rules before tree).inventory.WellPlaced :=
  (walk_recorded rules before tree).1.wellPlaced placed

theorem walkAll_wellPlaced {before : Inventory} (placed : before.WellPlaced)
    (calls : List (WalkRules × SyntaxTree)) : (walkAll before calls).WellPlaced := by
  induction calls generalizing before with
  | nil => exact placed
  | cons call rest ih =>
    obtain ⟨rules, tree⟩ := call
    exact ih (walk_wellPlaced placed rules tree)

/-- After any walks into one inventory that was empty at first, the marks in names and code are those
of the rosters, so that hooks share no name with functions and asynchronous functions share no code
with others; and no construct belongs to the loose text. -/
theorem rosters_bear_their_marks (calls : List (WalkRules × SyntaxTree)) :
    let inventory := walkAll .empty calls
    (∀ name ∈ inventory.hooks.names, Marker.isHook name) ∧
      (∀ entry ∈ inventory.functions.entries, ¬ Marker.isHook entry.1 ∧
        ¬ Marker.isComponent entry.2.code ∧ ¬ Marker.isAsync entry.2.code) ∧
      (∀ entry ∈ inventory.asyncFunctions.entries, ¬ Marker.isHook entry.1 ∧
        ¬ Marker.isComponent entry.2.code ∧ Marker.isAsync entry.2.code) ∧
      (∀ entry ∈ inventory.components.entries, Marker.isComponent entry.2.code) ∧
      (∀ entry ∈ inventory.classes.entries, ¬ Marker.isComponent entry.2.code) ∧
      (∀ name ∈ inventory.hooks.names,
        name ∉ inventory.functions.names ∧ name ∉ inventory.asyncFunctions.names) ∧
      (∀ chunk ∈ inventory.functions.chunks, ∀ other ∈ inventory.asyncFunctions.chunks,
        chunk.code ≠ other.code) ∧
      inventory.otherBlocks = [] ∧
      ∀ construct : Construct, construct.category ≠ .otherBlocks := by
  intro inventory
  obtain ⟨entries, otherBlocks⟩ : inventory.WellPlaced := walkAll_wellPlaced wellPlaced_empty calls
  -- What stands in a roster is found there under its name.
  have marked (category : Category) {roster : Roster} (slot : inventory.roster? category = some roster)
      {entry : String × Chunk} (member : entry ∈ roster.entries) :
      category.Marked entry.1 entry.2 := by
    apply entries
    rw [chunkUnder?, slot, Option.bind_some]
    exact (roster.get?_eq_some_iff entry.1 entry.2).mpr member
  have hooks : ∀ name ∈ inventory.hooks.names, Marker.isHook name := by
    intro name member
    obtain ⟨entry, held, rfl⟩ := List.mem_map.mp member
    exact marked .hooks rfl held
  have functions (entry : String × Chunk) (member : entry ∈ inventory.functions.entries) :=
    marked .functions rfl member
  have asyncFunctions (entry : String × Chunk) (member : entry ∈ inventory.asyncFunctions.entries) :=
    marked .asyncFunctions rfl member
  refine ⟨hooks, functions, asyncFunctions, fun _ member => marked .components rfl member,
    fun _ member => marked .classes rfl member, ?_, ?_, otherBlocks,
    Construct.category_ne_otherBlocks⟩
  · intro name hook
    constructor
    · intro member
      obtain ⟨entry, held, rfl⟩ := List.mem_map.mp member
      exact (functions entry held).1 (hooks _ hook)
    · intro member
      obtain ⟨entry, held, rfl⟩ := List.mem_map.mp member
      exact (asyncFunctions entry held).1 (hooks _ hook)
  · intro chunk inFunctions other inAsync same
    obtain ⟨entry, member, rfl⟩ := List.mem_map.mp inFunctions
    obtain ⟨entry', member', rfl⟩ := List.mem_map.mp inAsync
    exact (functions entry member).2.2 (same ▸ (asyncFunctions entry' member').2.2)

def markedSource : String :=
  "function useX() {}\nasync function f() {}\nfunction f() {}\n"

def markedTree : SyntaxTree :=
  .node ⟨"program", none, true, ⟨0, 57, 0, 0, 3, 0⟩⟩
    [.node ⟨"function_declaration", none, true, ⟨0, 18, 0, 0, 0, 18⟩⟩
        [.node ⟨"identifier", some "name", true, ⟨9, 13, 0, 9, 0, 13⟩⟩ []],
      .node ⟨"function_declaration", none, true, ⟨19, 40, 1, 0, 1, 21⟩⟩
        [.node ⟨"identifier", some "name", true, ⟨34, 35, 1, 15, 1, 16⟩⟩ []],
      .node ⟨"function_declaration", none, true, ⟨41, 56, 2, 0, 2, 15⟩⟩
        [.node ⟨"identifier", some "name", true, ⟨50, 51, 2, 9, 2, 10⟩⟩ []]]

def markedRules (policy : CollisionPolicy) : WalkRules :=
  ⟨.javaScript, markedSource.toUTF8, policy, 4⟩

def markedCalls : List (WalkRules × SyntaxTree) :=
  [(markedRules .overwrite, markedTree), (markedRules .error, markedTree),
    (markedRules .overwrite, markedTree)]

def markedInventory : Inventory :=
  { Inventory.empty with
    functions := Roster.empty.insert "f" ⟨"function f() {}", 3, 3⟩
    asyncFunctions := Roster.empty.insert "f" ⟨"async function f() {}", 2, 2⟩
    hooks := Roster.empty.insert "useX" ⟨"function useX() {}", 1, 1⟩ }

theorem rosters_bear_their_marks_collisions :
    (walk (markedRules .error) (walkAll .empty [(markedRules .overwrite, markedTree)])
        markedTree).halt = some (.fault (.nameCollision .hooks "useX")) ∧
      walkAll .empty markedCalls = markedInventory ∧ Marker.isHook "useX" ∧
      "useX" ∉ markedInventory.functions.names ∧ "function f() {}" ≠ "async function f() {}" := by
  have filled : walkAll .empty markedCalls = markedInventory := by
    simp only [markedCalls, walkAll, walk_eq_follow]
    decide +kernel
  obtain ⟨hooks, -, -, -, -, names, codes, -⟩ := rosters_bear_their_marks markedCalls
  rw [filled] at hooks names codes
  have hook : "useX" ∈ markedInventory.hooks.names := by decide
  refine ⟨?_, filled, hooks "useX" hook, (names "useX" hook).1,
    codes ⟨"function f() {}", 3, 3⟩ ?_ ⟨"async function f() {}", 2, 2⟩ ?_⟩
  · simp only [walkAll, walk_eq_follow]
    decide +kernel
  · decide
  · decide

end Walk

end CodeInventory
