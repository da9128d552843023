import CodeInventory.Proofs.Layout
import CodeInventory.Proofs.LineAccounting
import CodeInventory.Proofs.StrictWalk
import CodeInventory.Proofs.Survivors

set_option autoImplicit false

namespace CodeInventory

open Inventory SyntaxTree

-- The constructs that were entered: those looked at, but for one that was refused.
def Outcome.recorded (outcome : Outcome) : List Construct :=
  match outcome.halt with
  | some (.fault (.nameCollision _ _)) => outcome.found.dropLast
  | _ => outcome.found

def Chunk.Before (earlier later : Chunk) : Prop :=
  earlier.endLine ≤ later.startLine ∧
    ∀ line, Contains earlier.range line → Contains later.range line →
      line = earlier.endLine ∧ line = later.startLine

theorem Chunk.before_of_le {earlier later : Chunk} (ordered : earlier.endLine ≤ later.startLine) :
    earlier.Before later := by
  refine ⟨ordered, ?_⟩
  intro line inEarlier inLater
  simp only [Contains, Chunk.range] at inEarlier inLater
  omega

theorem Recognition.lineSpan_within (span : Span) :
    (lineSpan span).1 = span.startRow + 1 ∧ (lineSpan span).2 ≤ span.endRow + 1 := by
  by_cases above : span.endColumn = 0 ∧ span.startRow < span.endRow
  · simp only [lineSpan, if_pos above, true_and]
    omega
  · simp [lineSpan, above]

namespace Walk

variable {rules : WalkRules} {before : Inventory} {tree : SyntaxTree}
  {constructs earlier : List Construct} {construct : Construct}

theorem found_of_first (strict : rules.policy = .error)
    (collision : FirstCollision before constructs earlier construct) :
    (follow rules before (constructs.map .construct)).found = earlier ++ [construct] := by
  obtain ⟨later, split⟩ := collision.split
  have done := done_of_collisionFree rules collision.free
  obtain ⟨filled, found⟩ := recorded_of_done done
  have taken := (taken_iff_collides filled construct).mpr collision.collides
  -- The one that is refused has been looked at, and it is the last.
  have last := found_take rules (follow rules before (earlier.map .construct)).inventory construct
  rcases take_cases rules (follow rules before (earlier.map .construct)).inventory construct with
    ⟨-, -, refused⟩ | ⟨free, -⟩
  · rw [split, List.map_append, follow_append, andThen_of_ok done, List.map_cons, follow,
      andThen_of_halt (by rw [refused])]
    simp only [Outcome.found, List.filterMap_append] at found last ⊢
    rw [found, last]
  · simp [free strict] at taken

theorem follow_recorded (rules : WalkRules) (before : Inventory) (constructs : List Construct) :
    FilledBy before (follow rules before (constructs.map .construct)).inventory
        (follow rules before (constructs.map .construct)).recorded ∧
      (follow rules before (constructs.map .construct)).recorded <+: constructs := by
  have recorded_of_ok (done : (follow rules before (constructs.map .construct)).halt = none) :
      FilledBy before (follow rules before (constructs.map .construct)).inventory
          (follow rules before (constructs.map .construct)).recorded ∧
        (follow rules before (constructs.map .construct)).recorded <+: constructs := by
    obtain ⟨filled, found⟩ := recorded_of_done done
    rw [Outcome.recorded, done]
    simp only
    rw [found]
    exact ⟨filled, List.prefix_rfl⟩
  cases policy : rules.policy with
  | overwrite => exact recorded_of_ok (done_of_overwrite policy before constructs)
  | error =>
    rcases collisionFree_or_first before constructs with free | ⟨earlier, construct, collision⟩
    · exact recorded_of_ok (done_of_collisionFree rules free)
    · obtain ⟨refused, filled⟩ := refused_of_first policy collision
      obtain ⟨later, split⟩ := collision.split
      have recorded : (follow rules before (constructs.map .construct)).recorded = earlier := by
        rw [Outcome.recorded, refused, found_of_first policy collision]
        exact List.dropLast_concat
      rw [recorded]
      exact ⟨filled, construct :: later, split.symm⟩

-- A walk, finished or not, has entered what it recorded, and these come first of all that it can
-- reach.
theorem walk_recorded (rules : WalkRules) (before : Inventory) (tree : SyntaxTree) :
    FilledBy before (walk rules before tree).inventory (walk rules before tree).recorded ∧
      (walk rules before tree).recorded <+: reached rules tree := by
  have entered := follow_recorded rules before (reached rules tree)
  rw [walk_eq_record_reached]
  cases ending : (follow rules before ((reached rules tree).map .construct)).halt with
  | some halt => rwa [andThen_of_halt ending]
  | none =>
    -- The depth limit ends the walk after all the rest, so it takes nothing back.
    have same : (andThen (follow rules before ((reached rules tree).map .construct)) fun filled =>
        ⟨filled, [], halt? rules tree⟩).recorded =
          (follow rules before ((reached rules tree).map .construct)).recorded := by
      rw [andThen_of_ok ending, Outcome.recorded, Outcome.recorded, ending]
      cases limit : halt? rules tree with
      | none => simp [Outcome.found]
      | some halt =>
        cases halt with
        | panic panic => simp [Outcome.found]
        | fault fault =>
          obtain rfl := depthLimit_of_halt? limit
          simp [Outcome.found]
    rw [same, andThen_of_ok ending]
    exact entered

theorem lines_in_order {left right : Address} {earlier later : Construct}
    (laid : tree.Everywhere (Laid Span.startRow Span.endRow)) (listed : left < right)
    (apart : ¬ left <+: right) (foundLeft : constructAt? rules tree left = some earlier)
    (foundRight : constructAt? rules tree right = some later) :
    earlier.chunk.endLine ≤ later.chunk.startLine := by
  obtain ⟨node, at', chunk⟩ := node_of_constructAt? foundLeft
  obtain ⟨other, at'', chunk'⟩ := node_of_constructAt? foundRight
  have rows := Laid.last_le_first laid listed apart at' at''
  have ends := (Recognition.lineSpan_within node.span).2
  have starts := (Recognition.lineSpan_within other.span).1
  rw [chunk, chunk']
  simp only [Recognition.chunkOf]
  omega

theorem topmost_listed (rules : WalkRules) (tree : SyntaxTree) :
    (topmost rules tree).Pairwise fun left right => left < right ∧ ¬ left <+: right := by
  have listed := (SyntaxTree.addresses_ascending tree).filter fun address =>
    decide (Topmost rules tree address)
  exact (listed.and (topmost_apart rules tree)).imp fun both => ⟨both.1, both.2.1⟩

theorem reached_in_order (laid : tree.Everywhere (Laid Span.startRow Span.endRow)) :
    (reached rules tree).Pairwise fun earlier later =>
      earlier.chunk.endLine ≤ later.chunk.startLine := by
  have within : ((beforeHalt rules tree).filter fun address => Topmost rules tree address).Sublist
      (topmost rules tree) := (List.takeWhile_sublist _).filter _
  apply ((topmost_listed rules tree).sublist within).filterMap
  intro left right ⟨lower, apart⟩ earlier foundLeft later foundRight
  exact lines_in_order laid lower apart foundLeft foundRight

theorem lines_of_reached (laid : tree.Everywhere (Laid Span.startRow Span.endRow)) :
    ∀ construct ∈ reached rules tree, construct.chunk.startLine ≤ construct.chunk.endLine := by
  intro construct member
  obtain ⟨address, -, found⟩ := List.mem_filterMap.mp member
  exact (lines_of_constructAt? (laid.imp fun _ node => node.1) found).2

theorem share_starts_in_order {recorded : List Construct} (category : Category)
    (ordered : recorded.Pairwise fun earlier later =>
      earlier.chunk.endLine ≤ later.chunk.startLine)
    (upright : ∀ construct ∈ recorded, construct.chunk.startLine ≤ construct.chunk.endLine) :
    (share category recorded).Pairwise fun earlier later =>
      earlier.chunk.startLine ≤ later.chunk.startLine := by
  apply List.Pairwise.filter
  apply ordered.imp_of_mem
  intro earlier later member _ follows
  exact Nat.le_trans (upright earlier member) follows

/-- Where nodes lie inside their parents and one after another by rows, a walk into an empty
inventory records constructs in the order of their lines, and any two chunks share at most the line
on which the one ends and the other starts. -/
theorem recorded_lines_in_source_order (rules : WalkRules) (tree : SyntaxTree)
    (laid : tree.Everywhere (Laid Span.startRow Span.endRow)) :
    let outcome := walk rules .empty tree
    FilledBy .empty outcome.inventory outcome.recorded ∧
      (∀ construct ∈ outcome.recorded, construct.chunk.startLine ≤ construct.chunk.endLine) ∧
      outcome.recorded.Pairwise (fun earlier later => earlier.chunk.Before later.chunk) ∧
      (∀ chunk ∈ outcome.inventory.chunks, chunk.startLine ≤ chunk.endLine) ∧
      outcome.inventory.chunks.Pairwise (fun left right => left.Before right ∨ right.Before left) ∧
      (outcome.inventory.imports.map Chunk.startLine).Pairwise (· ≤ ·) ∧
      (outcome.inventory.globalVariables.map Chunk.startLine).Pairwise (· ≤ ·) ∧
      (outcome.inventory.typeDefinitions.map fun named => named.chunk.startLine).Pairwise (· ≤ ·) ∧
      (outcome.inventory.jsxElements.map Chunk.startLine).Pairwise (· ≤ ·) := by
  intro outcome
  obtain ⟨filled, first⟩ : FilledBy .empty outcome.inventory outcome.recorded ∧
      outcome.recorded <+: reached rules tree := walk_recorded rules .empty tree
  have ordered := (reached_in_order laid).sublist first.sublist
  have upright : ∀ construct ∈ outcome.recorded,
      construct.chunk.startLine ≤ construct.chunk.endLine :=
    fun construct member => lines_of_reached laid construct (first.subset member)
  have starts (category : Category) := share_starts_in_order category ordered upright
  have kept := survivors_sublist id outcome.recorded
  refine ⟨filled, upright, ordered.imp Chunk.before_of_le, ?_, ?_, ?_, ?_, ?_, ?_⟩
  · intro chunk member
    obtain ⟨construct, survives, rfl⟩ := List.mem_map.mp (filled.chunks_perm.mem_iff.mp member)
    exact upright construct (kept.subset survives)
  · -- The order of the slots is not that of the source, so each two may come either way round.
    apply (filled.chunks_perm.pairwise_iff fun either => either.symm).mpr
    apply List.pairwise_map.mpr
    exact (ordered.sublist kept).imp fun follows => .inl (Chunk.before_of_le follows)
  · rw [filled.imports]
    simpa [Inventory.empty, List.pairwise_map] using starts .imports
  · rw [filled.globalVariables]
    simpa [Inventory.empty, List.pairwise_map] using starts .globalVariables
  · rw [filled.typeDefinitions]
    simpa [Inventory.empty, List.pairwise_map] using starts .typeDefinitions
  · rw [filled.jsxElements]
    simpa [Inventory.empty, List.pairwise_map] using starts .jsxElements

def neighbourSource : String :=
  "fn f() {}\nfn f() \x7b\n\x7d fn é() {}\n"

def neighbours : SyntaxTree :=
  .node ⟨"source_file", none, true, ⟨0, 32, 0, 0, 3, 0⟩⟩
    [.node ⟨"function_item", none, true, ⟨0, 9, 0, 0, 0, 9⟩⟩
        [.node ⟨"identifier", some "name", true, ⟨3, 4, 0, 3, 0, 4⟩⟩ []],
      .node ⟨"function_item", none, true, ⟨10, 20, 1, 0, 2, 1⟩⟩
        [.node ⟨"identifier", some "name", true, ⟨13, 14, 1, 3, 1, 4⟩⟩ []],
      .node ⟨"function_item", none, true, ⟨21, 31, 2, 2, 2, 12⟩⟩
        [.node ⟨"identifier", some "name", true, ⟨24, 26, 2, 5, 2, 7⟩⟩ []]]

def neighbourRules : WalkRules :=
  ⟨.rust, neighbourSource.toUTF8, .overwrite, 4⟩

theorem recorded_lines_in_source_order_neighbours :
    neighbours.Everywhere (Laid Span.startRow Span.endRow) ∧
      ((walk neighbourRules .empty neighbours).recorded.map fun construct =>
        construct.chunk.range) = [(1, 1), (2, 3), (3, 3)] ∧
      (walk neighbourRules .empty neighbours).recorded.Pairwise fun earlier later =>
        earlier.chunk.Before later.chunk := by
  have laid : neighbours.Everywhere (Laid Span.startRow Span.endRow) := by decide +kernel
  have ranges : ((walk neighbourRules .empty neighbours).recorded.map fun construct =>
      construct.chunk.range) = [(1, 1), (2, 3), (3, 3)] := by
    rw [walk_eq_follow]
    decide +kernel
  obtain ⟨-, -, ordered, -⟩ := recorded_lines_in_source_order neighbourRules neighbours laid
  exact ⟨laid, ranges, ordered⟩

end Walk

end CodeInventory
