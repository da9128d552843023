import CodeInventory.Proofs.GreedyWalk
import CodeInventory.Proofs.Layout

set_option autoImplicit false

namespace CodeInventory

open Inventory

variable {rules : WalkRules} {before : Inventory} {tree : SyntaxTree}

namespace Walk

theorem walk_of_overwrite (lenient : rules.policy = .overwrite) (before : Inventory)
    (tree : SyntaxTree) :
    (walk rules before tree).halt = halt? rules tree ∧
      FilledBy before (walk rules before tree).inventory (reached rules tree) ∧
      (walk rules before tree).found = reached rules tree :=
  walk_of_recorded (done_of_overwrite lenient before (reached rules tree))

theorem length_le_of_free (free : halt? rules tree = none) {address : Address}
    (inside : address ∈ tree.addresses) (exposed : Exposed rules tree address) :
    address.length ≤ rules.maxDepth := by
  rw [← beforeHalt_of_free free] at inside
  exact length_le_of_beforeHalt inside exposed

theorem free_of_higher {higher : Nat} (raised : rules.maxDepth ≤ higher)
    (free : halt? rules tree = none) : halt? { rules with maxDepth := higher } tree = none := by
  rw [halt?_eq_none_iff]
  intro address inside
  -- Nothing that a walk can come to lies below the lower limit, and the rest is as it was.
  by_cases exposed : Exposed rules tree address
  · have within := length_le_of_free free inside exposed
    have here := halt?_eq_none_iff.mp free address inside
    rw [haltAt?_of_within exposed within] at here
    have same : Exposed { rules with maxDepth := higher } tree address := exposed
    rw [haltAt?_of_within same (Nat.le_trans within raised)]
    exact here
  · have hidden : ¬ Exposed { rules with maxDepth := higher } tree address := exposed
    simp [haltAt?, Overdeep, hidden]

end Walk

namespace SyntaxTree

def Inside (source : ByteArray) (node : SyntaxTree) : Prop :=
  node.span.Within source.size

instance (source : ByteArray) : DecidablePred (Inside source) :=
  fun node => inferInstanceAs (Decidable (node.span.Within source.size))

theorem mem_children_of_childInField? {tree child : SyntaxTree} {field : String}
    (found : tree.childInField? field = some child) : child ∈ tree.children :=
  List.mem_of_find?_eq_some found

end SyntaxTree

namespace Recognition

variable {source : ByteArray} {tree child : SyntaxTree}

theorem readName?_eq_ok {named : Option SyntaxTree} (inside : ∀ node ∈ named, node.Inside source) :
    readName? source named = .ok (named.map fun node => node.text source) := by
  cases named with
  | none => rfl
  | some node =>
    have within : node.span.Within source.size := inside node rfl
    simp [readName?, SyntaxTree.read, within, Except.map]

theorem mem_children_of_nameNode? (found : nameNode? tree = some child) :
    child ∈ tree.children := by
  rw [nameNode?, Option.or_eq_some_iff] at found
  rcases found with named | ⟨-, like⟩
  · exact SyntaxTree.mem_children_of_childInField? named
  · exact List.mem_of_find?_eq_some like

theorem describe?_eq_ok (inside : ∀ child ∈ tree.children, child.Inside source) (depth : Nat)
    (tag : Tag) : ∃ description?, describe? source depth tree tag = .ok description? := by
  have field (name : String) : ∀ node ∈ tree.childInField? name, node.Inside source :=
    fun node found => inside node (SyntaxTree.mem_children_of_childInField? found)
  have declared : ∀ node ∈ nameNode? tree, node.Inside source :=
    fun node found => inside node (mem_children_of_nameNode? found)
  have aliased : ∀ node ∈ (tree.childInField? "left").or (nameNode? tree), node.Inside source := by
    intro node found
    rcases Option.or_eq_some_iff.mp found with left | ⟨-, name⟩
    · exact field "left" node left
    · exact declared node name
  cases tag with
  | importing | declaration | statement | markup => exact ⟨_, rfl⟩
  | typeAlias => exact ⟨_, by rw [describe?, aliasName?, readName?_eq_ok aliased]; rfl⟩
  | interface | function | classLike =>
    exact ⟨_, by rw [describe?, declaredName?, readName?_eq_ok declared]; rfl⟩
  | implementation =>
    have target := readName?_eq_ok (field "type")
    have interface := readName?_eq_ok (field "trait")
    simp only [describe?, implementationName?, target, interface, bind, Except.bind]
    cases tree.childInField? "type" <;> cases tree.childInField? "trait" <;> exact ⟨_, rfl⟩

theorem classify_eq_ok (language : Language) (depth : Nat) (here : tree.Inside source)
    (inside : ∀ child ∈ tree.children, child.Inside source) :
    ∃ found?, classify language source depth tree = .ok found? := by
  have code : tree.read source = .ok (tree.text source) := if_pos here
  unfold classify
  split
  next => exact ⟨_, rfl⟩
  next tag _ =>
    obtain ⟨description?, described⟩ := describe?_eq_ok inside depth tag
    cases description? <;> simp [described, code, bind, Except.bind]

end Recognition

namespace Walk

theorem panicAt?_of_inside (inside : tree.Everywhere (SyntaxTree.Inside rules.source))
    (address : Address) : panicAt? rules tree address = none := by
  rw [← Option.not_isSome_iff_eq_none, Option.isSome_iff_exists]
  rintro ⟨panic, aborted⟩
  obtain ⟨node, found, verdict⟩ := panicAt?_eq_some_iff.mp aborted
  have children : ∀ child ∈ node.children, child.Inside rules.source := by
    intro child member
    obtain ⟨index, held⟩ := List.mem_iff_getElem?.mp member
    exact inside.at ((SyntaxTree.at?_snoc found index).trans held)
  obtain ⟨found?, readable⟩ := Recognition.classify_eq_ok rules.language address.length
    (inside.at found) children
  simp [readable] at verdict

theorem halt?_of_inside (inside : tree.Everywhere (SyntaxTree.Inside rules.source)) :
    halt? rules tree = if ∃ address ∈ tree.addresses, Overdeep rules tree address then
      some (.fault (.depthLimitExceeded rules.maxDepth)) else none := by
  have here (address : Address) : haltAt? rules tree address =
      if Overdeep rules tree address then some (.fault (.depthLimitExceeded rules.maxDepth))
      else none := by
    simp [haltAt?, panicAt?_of_inside inside]
  split
  next deep =>
    cases ends : halt? rules tree with
    | none =>
      obtain ⟨address, listed, overdeep⟩ := deep
      simpa [here, overdeep] using halt?_eq_none_iff.mp ends address listed
    | some halt =>
      obtain ⟨first, -, -, same⟩ := exists_first_halt ends
      simp [here] at same
      simp [same.2]
  next shallow =>
    rw [halt?_eq_none_iff]
    intro address listed
    rw [here, if_neg fun overdeep => shallow ⟨address, listed, overdeep⟩]

/-- With overwriting, a walk whose nodes lie in the source fails just when some node one step below
the limit has no construct above it, and is done otherwise. Wherever the limit stops a walk, it
keeps the topmost constructs before the first such node, and a higher limit changes nothing for a
walk that is done. -/
theorem depth_limit_is_exact (language : Language) (source : ByteArray) (maxDepth : Nat)
    (before : Inventory) (tree : SyntaxTree) :
    let rules : WalkRules := ⟨language, source, .overwrite, maxDepth⟩
    let outcome := walk rules before tree
    (tree.Everywhere (SyntaxTree.Inside source) →
        (outcome.halt = some (.fault (.depthLimitExceeded maxDepth)) ↔
          ∃ address ∈ tree.addresses, address.length = maxDepth + 1 ∧ Exposed rules tree address) ∧
        (outcome.halt = some (.fault (.depthLimitExceeded maxDepth)) ∨ outcome.halt = none)) ∧
      (outcome.halt = some (.fault (.depthLimitExceeded maxDepth)) →
        ∃ earlier first later, tree.addresses = earlier ++ first :: later ∧
          Overdeep rules tree first ∧ (∀ address ∈ earlier, ¬ Overdeep rules tree address) ∧
          FilledBy before outcome.inventory
            (constructsAt rules tree (earlier.filter fun address => Topmost rules tree address))) ∧
      (outcome.halt = none → ∀ higher, maxDepth ≤ higher →
        (walk { rules with maxDepth := higher } before tree).halt = none ∧
          (walk { rules with maxDepth := higher } before tree).inventory = outcome.inventory) := by
  intro rules outcome
  obtain ⟨ending, filled, -⟩ : outcome.halt = halt? rules tree ∧
      FilledBy before outcome.inventory (reached rules tree) ∧ _ :=
    walk_of_overwrite rfl before tree
  refine ⟨?_, ?_, ?_⟩
  · intro inside
    rw [ending, halt?_of_inside inside]
    by_cases deep : ∃ address ∈ tree.addresses, Overdeep rules tree address
    · rw [if_pos deep]
      exact ⟨iff_of_true rfl deep, .inl rfl⟩
    · rw [if_neg deep]
      exact ⟨iff_of_false (by simp) deep, .inr rfl⟩
  · intro failed
    obtain ⟨first, later, split, here⟩ := exists_first_halt (ending.symm.trans failed)
    exact ⟨beforeHalt rules tree, first, later, split, (haltAt?_eq_fault_iff.mp here).1,
      fun address listed => not_overdeep_of_haltAt? (haltAt?_of_mem_beforeHalt listed), filled⟩
  · intro done higher raised
    obtain ⟨-, free⟩ := recorded_and_free done
    have stillFree := free_of_higher raised free
    obtain ⟨stillEnding, refilled, -⟩ :=
      walk_of_overwrite (show ({ rules with maxDepth := higher } : WalkRules).policy = _ from rfl)
        before tree
    refine ⟨stillEnding.trans stillFree, refilled.unique ?_⟩
    rw [reached_of_free free] at filled
    rw [reached_of_free stillFree]
    exact filled

-- One step down is enough for the twins, whose deeper nodes lie inside them.
theorem depth_limit_is_exact_twins :
    twins.Everywhere (SyntaxTree.Inside twinSource.toUTF8) ∧
      (walk { twinRules with maxDepth := 0 } .empty twins).halt =
        some (.fault (.depthLimitExceeded 0)) ∧
      (walk { twinRules with maxDepth := 4 } .empty twins).inventory =
        (walk { twinRules with maxDepth := 1 } .empty twins).inventory := by
  have inside : twins.Everywhere (SyntaxTree.Inside twinSource.toUTF8) := by decide +kernel
  obtain ⟨tooLow, -⟩ := depth_limit_is_exact .rust twinSource.toUTF8 0 .empty twins
  obtain ⟨-, -, enough⟩ := depth_limit_is_exact .rust twinSource.toUTF8 1 .empty twins
  have done : (walk { twinRules with maxDepth := 1 } .empty twins).halt = none := by
    rw [walk_eq_follow]
    decide +kernel
  refine ⟨inside, (tooLow inside).1.mpr ⟨[0], ?_⟩, (enough done 4 (by decide)).2⟩
  decide +kernel

def shortSource : String :=
  "fn f() {}"

-- The tree of `fn long_name() {}`.
def longTree : SyntaxTree :=
  .node ⟨"source_file", none, true, ⟨0, 17, 0, 0, 0, 17⟩⟩
    [.node ⟨"function_item", none, true, ⟨0, 17, 0, 0, 0, 17⟩⟩
        [.node ⟨"identifier", some "name", true, ⟨3, 12, 0, 3, 0, 12⟩⟩ []]]

-- The walk reads the name of the function, which is longer than the source, and gets to no end
-- although no node is too deep.
theorem short_source_aborts_walk :
    (∀ address ∈ longTree.addresses, address.length ≠ 4 + 1) ∧
      (walk ⟨.rust, shortSource.toUTF8, .overwrite, 4⟩ .empty longTree).halt =
        some (.panic (.badRange 3 12 9)) := by
  rw [walk_eq_follow]
  decide +kernel

end Walk

end CodeInventory
