import CodeInventory.CollisionPolicy
import CodeInventory.Event
import CodeInventory.Fault
import CodeInventory.Recognition

set_option autoImplicit false

namespace CodeInventory

-- `visit` goes through a tree by recursion and `walk` with the pending nodes on a stack, so that
-- the depth of the tree costs no recursion.

structure WalkRules where
  language : Language
  source : ByteArray
  policy : CollisionPolicy
  maxDepth : Nat

structure Outcome where
  inventory : Inventory
  events : List Event
  halt : Option Halt
deriving DecidableEq

namespace Walk

def enter (policy : CollisionPolicy) (category : Category) (name : String) (chunk : Chunk)
    (roster : Roster) : Except Halt (Roster × List Event) :=
  match roster.get? name, policy with
  | none, _ => .ok (roster.insert name chunk, [])
  | some _, .error => .error (.fault (.nameCollision category name))
  | some previous, .overwrite =>
      .ok (roster.insert name chunk, [.replaced category name chunk.range previous.range])

def record (policy : CollisionPolicy) (inventory : Inventory) (construct : Construct) :
    Except Halt (Inventory × List Event) :=
  let category := construct.category
  let name := construct.entryName
  let chunk := construct.chunk
  match category with
  | .imports => .ok ({ inventory with imports := inventory.imports ++ [chunk] }, [])
  | .globalVariables =>
      .ok ({ inventory with globalVariables := inventory.globalVariables ++ [chunk] }, [])
  | .typeDefinitions =>
      .ok ({ inventory with typeDefinitions := inventory.typeDefinitions ++ [⟨name, chunk⟩] }, [])
  | .jsxElements => .ok ({ inventory with jsxElements := inventory.jsxElements ++ [chunk] }, [])
  | .otherBlocks => .error (.panic .unreachable)
  | .functions => do
      let (roster, events) ← enter policy category name chunk inventory.functions
      .ok ({ inventory with functions := roster }, events)
  | .asyncFunctions => do
      let (roster, events) ← enter policy category name chunk inventory.asyncFunctions
      .ok ({ inventory with asyncFunctions := roster }, events)
  | .classes => do
      let (roster, events) ← enter policy category name chunk inventory.classes
      .ok ({ inventory with classes := roster }, events)
  | .hooks => do
      let (roster, events) ← enter policy category name chunk inventory.hooks
      .ok ({ inventory with hooks := roster }, events)
  | .components => do
      let (roster, events) ← enter policy category name chunk inventory.components
      .ok ({ inventory with components := roster }, events)

def take (rules : WalkRules) (inventory : Inventory) (construct : Construct) : Outcome :=
  match record rules.policy inventory construct with
  | .ok (filled, events) => ⟨filled, .found construct :: events, none⟩
  | .error halt => ⟨inventory, [.found construct], some halt⟩

def andThen (outcome : Outcome) (next : Inventory → Outcome) : Outcome :=
  match outcome.halt with
  | some _ => outcome
  | none =>
      let later := next outcome.inventory
      ⟨later.inventory, outcome.events ++ later.events, later.halt⟩

mutual

def visit (rules : WalkRules) (depth : Nat) (inventory : Inventory) : SyntaxTree → Outcome
  | .node label children =>
      if rules.maxDepth < depth then
        ⟨inventory, [], some (.fault (.depthLimitExceeded rules.maxDepth))⟩
      else
        match Recognition.classify rules.language rules.source depth (.node label children) with
        | .error panic => ⟨inventory, [], some (.panic panic)⟩
        | .ok (some construct) => take rules inventory construct
        | .ok none => visitAll rules (depth + 1) inventory children

def visitAll (rules : WalkRules) (depth : Nat) (inventory : Inventory) :
    List SyntaxTree → Outcome
  | [] => ⟨inventory, [], none⟩
  | tree :: rest =>
      andThen (visit rules depth inventory tree) fun filled => visitAll rules depth filled rest

end

abbrev Pending := List (Nat × SyntaxTree)

def remaining (pending : Pending) : Nat :=
  SyntaxTree.sizeAll (pending.map Prod.snd)

theorem sizeAll_append (left right : List SyntaxTree) :
    SyntaxTree.sizeAll (left ++ right) = SyntaxTree.sizeAll left + SyntaxTree.sizeAll right := by
  induction left with
  | nil => simp [SyntaxTree.sizeAll]
  | cons tree rest ih => simp [SyntaxTree.sizeAll, ih, Nat.add_assoc]

theorem size_eq (tree : SyntaxTree) : tree.size = 1 + SyntaxTree.sizeAll tree.children := by
  cases tree
  simp [SyntaxTree.size, SyntaxTree.children]

theorem remaining_tail_lt (depth : Nat) (tree : SyntaxTree) (pending : Pending) :
    remaining pending < remaining ((depth, tree) :: pending) := by
  simp only [remaining, List.map_cons, SyntaxTree.sizeAll, size_eq]
  omega

theorem remaining_children_lt (depth : Nat) (tree : SyntaxTree) (pending : Pending) :
    remaining (tree.children.map (fun child => (depth + 1, child)) ++ pending) <
      remaining ((depth, tree) :: pending) := by
  have same : (tree.children.map fun child => (depth + 1, child)).map Prod.snd = tree.children := by
    simp [Function.comp_def]
  simp only [remaining, List.map_append, same, sizeAll_append, List.map_cons, SyntaxTree.sizeAll,
    size_eq tree]
  omega

def loop (rules : WalkRules) (inventory : Inventory) (events : List Event) :
    Pending → Outcome
  | [] => ⟨inventory, events, none⟩
  | (depth, tree) :: pending =>
      if rules.maxDepth < depth then
        ⟨inventory, events, some (.fault (.depthLimitExceeded rules.maxDepth))⟩
      else
        match Recognition.classify rules.language rules.source depth tree with
        | .error panic => ⟨inventory, events, some (.panic panic)⟩
        | .ok (some construct) =>
            let taken := take rules inventory construct
            match taken.halt with
            | some halt => ⟨taken.inventory, events ++ taken.events, some halt⟩
            | none => loop rules taken.inventory (events ++ taken.events) pending
        | .ok none =>
            loop rules inventory events
              (tree.children.map (fun child => (depth + 1, child)) ++ pending)
termination_by pending => remaining pending
decreasing_by
  · exact remaining_tail_lt depth tree pending
  · exact remaining_children_lt depth tree pending

end Walk

def walk (rules : WalkRules) (inventory : Inventory) (tree : SyntaxTree) : Outcome :=
  Walk.loop rules inventory [] [(0, tree)]

end CodeInventory
