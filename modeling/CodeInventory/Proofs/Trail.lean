import CodeInventory.Proofs.Record

set_option autoImplicit false

namespace CodeInventory.Walk

open Inventory

inductive Stop where
  | construct (construct : Construct)
  | halt (halt : Halt)
deriving DecidableEq

mutual

-- The stops of a walk through a tree, as if none of them ended it.
def trail (rules : WalkRules) (depth : Nat) : SyntaxTree → List Stop
  | .node label children =>
      if rules.maxDepth < depth then [.halt (.fault (.depthLimitExceeded rules.maxDepth))]
      else
        match Recognition.classify rules.language rules.source depth (.node label children) with
        | .error panic => .halt (.panic panic) :: trailOfAll rules (depth + 1) children
        | .ok (some construct) => [.construct construct]
        | .ok none => trailOfAll rules (depth + 1) children

def trailOfAll (rules : WalkRules) (depth : Nat) : List SyntaxTree → List Stop
  | [] => []
  | tree :: rest => trail rules depth tree ++ trailOfAll rules depth rest

end

def trailOfPending (rules : WalkRules) (pending : Pending) : List Stop :=
  pending.flatMap fun entry => trail rules entry.1 entry.2

theorem trail_overdeep {rules : WalkRules} {depth : Nat} (deep : rules.maxDepth < depth)
    (tree : SyntaxTree) :
    trail rules depth tree = [.halt (.fault (.depthLimitExceeded rules.maxDepth))] := by
  cases tree
  simp [trail, deep]

theorem trail_construct {rules : WalkRules} {depth : Nat} (within : ¬ rules.maxDepth < depth)
    {tree : SyntaxTree} {construct : Construct}
    (found : Recognition.classify rules.language rules.source depth tree = .ok (some construct)) :
    trail rules depth tree = [.construct construct] := by
  cases tree
  simp [trail, within, found]

theorem trail_children {rules : WalkRules} {depth : Nat} (within : ¬ rules.maxDepth < depth)
    {tree : SyntaxTree}
    (unmatched : Recognition.classify rules.language rules.source depth tree = .ok none) :
    trail rules depth tree = trailOfAll rules (depth + 1) tree.children := by
  cases tree
  simp [trail, within, unmatched, SyntaxTree.children]

theorem trail_panic {rules : WalkRules} {depth : Nat} (within : ¬ rules.maxDepth < depth)
    {tree : SyntaxTree} {panic : Panic}
    (aborted : Recognition.classify rules.language rules.source depth tree = .error panic) :
    trail rules depth tree = .halt (.panic panic) :: trailOfAll rules (depth + 1) tree.children := by
  cases tree
  simp [trail, within, aborted, SyntaxTree.children]

def follow (rules : WalkRules) (inventory : Inventory) : List Stop → Outcome
  | [] => ⟨inventory, [], none⟩
  | .halt halt :: _ => ⟨inventory, [], some halt⟩
  | .construct construct :: rest =>
      andThen (take rules inventory construct) fun filled => follow rules filled rest

theorem andThen_of_halt {outcome : Outcome} {halt : Halt} (failed : outcome.halt = some halt)
    (next : Inventory → Outcome) : andThen outcome next = outcome := by
  simp [andThen, failed]

theorem andThen_of_ok {outcome : Outcome} (done : outcome.halt = none)
    (next : Inventory → Outcome) :
    andThen outcome next = ⟨(next outcome.inventory).inventory,
      outcome.events ++ (next outcome.inventory).events, (next outcome.inventory).halt⟩ := by
  simp [andThen, done]

theorem andThen_done {outcome : Outcome} {next : Inventory → Outcome}
    (done : (andThen outcome next).halt = none) :
    outcome.halt = none ∧ (next outcome.inventory).halt = none := by
  cases failed : outcome.halt with
  | some halt =>
    rw [andThen_of_halt failed, failed] at done
    cases done
  | none =>
    rw [andThen_of_ok failed] at done
    exact ⟨rfl, done⟩

theorem andThen_nothing (outcome : Outcome) :
    andThen outcome (fun filled => ⟨filled, [], none⟩) = outcome := by
  cases outcome with
  | mk inventory events halt => cases halt <;> simp [andThen]

theorem andThen_assoc (outcome : Outcome) (next last : Inventory → Outcome) :
    andThen (andThen outcome next) last =
      andThen outcome fun filled => andThen (next filled) last := by
  cases failed : outcome.halt with
  | some halt => simp [andThen, failed]
  | none =>
    cases later : (next outcome.inventory).halt with
    | some halt => simp [andThen, failed, later]
    | none => simp [andThen, failed, later, List.append_assoc]

theorem follow_append (rules : WalkRules) (inventory : Inventory) (earlier later : List Stop) :
    follow rules inventory (earlier ++ later) =
      andThen (follow rules inventory earlier) fun filled => follow rules filled later := by
  induction earlier generalizing inventory with
  | nil => simp [follow, andThen]
  | cons stop rest ih =>
    cases stop with
    | halt halt => rfl
    | construct construct =>
      simp only [List.cons_append, follow, ih, andThen_assoc]

theorem trailOfPending_cons (rules : WalkRules) (depth : Nat) (tree : SyntaxTree)
    (pending : Pending) :
    trailOfPending rules ((depth, tree) :: pending) =
      trail rules depth tree ++ trailOfPending rules pending := by
  simp [trailOfPending]

theorem trailOfPending_append (rules : WalkRules) (next pending : Pending) :
    trailOfPending rules (next ++ pending) =
      trailOfPending rules next ++ trailOfPending rules pending := by
  simp [trailOfPending]

theorem trailOfPending_children (rules : WalkRules) (depth : Nat) (trees : List SyntaxTree) :
    trailOfPending rules (trees.map fun tree => (depth, tree)) = trailOfAll rules depth trees := by
  induction trees with
  | nil => rfl
  | cons tree rest ih =>
    rw [trailOfAll, ← ih]
    rfl

theorem loop_eq_follow (rules : WalkRules) (inventory : Inventory) (events : List Event)
    (pending : Pending) :
    loop rules inventory events pending =
      andThen ⟨inventory, events, none⟩ fun filled =>
        follow rules filled (trailOfPending rules pending) := by
  -- The stack holds what is left of the trail: where the children of a node take its place on the
  -- one, their trails take the place of its trail in the other.
  induction inventory, events, pending using loop.induct rules with
  | case1 inventory events => simp [loop, trailOfPending, follow, andThen]
  | case2 inventory events depth tree pending deep =>
    rw [loop, if_pos deep, trailOfPending_cons, trail_overdeep deep]
    simp [follow, andThen]
  | case3 inventory events depth tree pending within panic aborted =>
    rw [loop, if_neg within, trailOfPending_cons, trail_panic within aborted]
    simp [aborted, follow, andThen]
  | case4 inventory events depth tree pending within construct found taken halt failed =>
    rw [loop, if_neg within, trailOfPending_cons, trail_construct within found]
    simp only [found]
    have stopped : (take rules inventory construct).halt = some halt := failed
    simp [stopped, follow, andThen]
  | case5 inventory events depth tree pending within construct found taken done ih =>
    rw [loop, if_neg within, trailOfPending_cons, trail_construct within found]
    simp only [found]
    have entered : (take rules inventory construct).halt = none := done
    simp only [entered, List.singleton_append, follow]
    rw [show loop rules (take rules inventory construct).inventory
      (events ++ (take rules inventory construct).events) pending = _ from ih]
    simp [andThen, entered, taken]
  | case6 inventory events depth tree pending within unmatched ih =>
    rw [loop, if_neg within, trailOfPending_cons, trail_children within unmatched]
    simp only [unmatched]
    rw [ih, trailOfPending_append, trailOfPending_children]

theorem walk_eq_follow (rules : WalkRules) (before : Inventory) (tree : SyntaxTree) :
    walk rules before tree = follow rules before (trail rules 0 tree) := by
  rw [walk, loop_eq_follow]
  simp [andThen, trailOfPending]

end CodeInventory.Walk
