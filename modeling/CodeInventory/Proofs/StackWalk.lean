import CodeInventory.Proofs.Trail

set_option autoImplicit false

namespace CodeInventory.Walk

variable {rules : WalkRules}

mutual

theorem visit_eq_follow (rules : WalkRules) (depth : Nat) (before : Inventory)
    (tree : SyntaxTree) :
    visit rules depth before tree = follow rules before (trail rules depth tree) := by
  cases tree with
  | node label children =>
    by_cases deep : rules.maxDepth < depth
    · rw [visit, if_pos deep, trail_overdeep deep]
      rfl
    · rw [visit, if_neg deep]
      match verdict : Recognition.classify rules.language rules.source depth
          (.node label children) with
      | .error panic =>
        rw [trail_panic deep verdict]
        rfl
      | .ok (some construct) =>
        rw [trail_construct deep verdict]
        exact (andThen_nothing _).symm
      | .ok none =>
        rw [trail_children deep verdict]
        exact visitAll_eq_follow rules (depth + 1) before children

theorem visitAll_eq_follow (rules : WalkRules) (depth : Nat) (before : Inventory)
    (trees : List SyntaxTree) :
    visitAll rules depth before trees = follow rules before (trailOfAll rules depth trees) := by
  cases trees with
  | nil => rfl
  | cons tree rest =>
    rw [visitAll, trailOfAll, follow_append, visit_eq_follow rules depth before tree]
    congr 1
    funext filled
    exact visitAll_eq_follow rules depth filled rest

end

structure Standing where
  inventory : Inventory
  events : List Event
  pending : Pending

def round (rules : WalkRules) (standing : Standing) : Outcome ⊕ Standing :=
  match standing.pending with
  | [] => .inl ⟨standing.inventory, standing.events, none⟩
  | (depth, tree) :: pending =>
      if rules.maxDepth < depth then
        .inl ⟨standing.inventory, standing.events,
          some (.fault (.depthLimitExceeded rules.maxDepth))⟩
      else
        match Recognition.classify rules.language rules.source depth tree with
        | .error panic => .inl ⟨standing.inventory, standing.events, some (.panic panic)⟩
        | .ok (some construct) =>
            let taken := take rules standing.inventory construct
            match taken.halt with
            | some halt => .inl ⟨taken.inventory, standing.events ++ taken.events, some halt⟩
            | none => .inr ⟨taken.inventory, standing.events ++ taken.events, pending⟩
        | .ok none =>
            .inr ⟨standing.inventory, standing.events,
              tree.children.map (fun child => (depth + 1, child)) ++ pending⟩

def rounds (rules : WalkRules) : Nat → Standing → Option Outcome
  | 0, _ => none
  | limit + 1, standing =>
      match round rules standing with
      | .inl outcome => some outcome
      | .inr next => rounds rules limit next

def Standing.goOn (rules : WalkRules) (standing : Standing) : Outcome :=
  loop rules standing.inventory standing.events standing.pending

theorem goOn_eq_round (rules : WalkRules) (standing : Standing) :
    standing.goOn rules = (round rules standing).elim id (Standing.goOn rules) := by
  obtain ⟨inventory, events, pending⟩ := standing
  cases pending with
  | nil => simp [Standing.goOn, loop, round]
  | cons entry pending =>
    obtain ⟨depth, tree⟩ := entry
    by_cases deep : rules.maxDepth < depth
    · simp [Standing.goOn, loop, round, deep]
    · match verdict : Recognition.classify rules.language rules.source depth tree with
      | .error panic => simp [Standing.goOn, loop, round, deep, verdict]
      | .ok (some construct) =>
        cases ending : (take rules inventory construct).halt <;>
          simp [Standing.goOn, loop, round, deep, verdict, ending]
      | .ok none => simp [Standing.goOn, loop, round, deep, verdict]

theorem remaining_of_round {standing next : Standing}
    (further : round rules standing = .inr next) :
    remaining next.pending < remaining standing.pending := by
  obtain ⟨inventory, events, pending⟩ := standing
  cases pending with
  | nil => simp [round] at further
  | cons entry pending =>
    obtain ⟨depth, tree⟩ := entry
    by_cases deep : rules.maxDepth < depth
    · simp [round, deep] at further
    · match verdict : Recognition.classify rules.language rules.source depth tree with
      | .error panic => simp [round, deep, verdict] at further
      | .ok (some construct) =>
        cases ending : (take rules inventory construct).halt with
        | some halt => simp [round, deep, verdict, ending] at further
        | none =>
          simp only [round, deep, verdict, ending, if_false, Sum.inr.injEq] at further
          subst further
          exact remaining_tail_lt depth tree pending
      | .ok none =>
        simp only [round, deep, verdict, if_false, Sum.inr.injEq] at further
        subst further
        exact remaining_children_lt depth tree pending

theorem rounds_eq_goOn {limit : Nat} {standing : Standing}
    (enough : remaining standing.pending < limit) :
    rounds rules limit standing = some (standing.goOn rules) := by
  -- Each round but the last leads to fewer nodes.
  induction limit generalizing standing with
  | zero => exact absurd enough (Nat.not_lt_zero _)
  | succ limit ih =>
    rw [rounds, goOn_eq_round]
    cases further : round rules standing with
    | inl outcome => rfl
    | inr next =>
      apply ih
      exact Nat.lt_of_lt_of_le (remaining_of_round further) (Nat.le_of_lt_succ enough)

/-- The walk ends after at most one round for each node and a last one, and it leaves the same
inventory, log and fault as the recursive walk. -/
theorem stack_walk_refines_visit (rules : WalkRules) (before : Inventory) (tree : SyntaxTree) :
    rounds rules (tree.size + 1) ⟨before, [], [(0, tree)]⟩ = some (walk rules before tree) ∧
      walk rules before tree = visit rules 0 before tree := by
  constructor
  · apply rounds_eq_goOn
    simp [remaining, SyntaxTree.sizeAll]
  · rw [walk_eq_follow, visit_eq_follow]

end CodeInventory.Walk
