import CodeInventory.Proofs.StrictWalk
import CodeInventory.Proofs.SourceOrder

set_option autoImplicit false

namespace CodeInventory

open Inventory

theorem length_put (name : String) (chunk : Chunk) {entries : List (String × Chunk)}
    (ascending : Ascending entries) :
    (Roster.put name chunk entries).length =
      entries.length + if entries.lookup name = none then 1 else 0 := by
  induction entries with
  | nil => simp [Roster.put]
  | cons head rest ih =>
    obtain ⟨first, held⟩ := head
    obtain ⟨below, tail⟩ := List.pairwise_cons.mp ascending
    by_cases same : name = first
    · simp [Roster.put, same]
    · have skipped : (name == first) = false := beq_eq_false_iff_ne.mpr same
      by_cases before : Precedes name first
      · -- All names further on are greater, so the name is not among them.
        have absent : rest.lookup name = none := by
          rw [List.lookup_eq_none_iff]
          intro entry member
          have after := precedes_trans before (below entry member)
          rw [bne_iff_ne]
          rintro rfl
          exact not_precedes_self _ after
        simp [Roster.put, same, before, List.lookup_cons, skipped, absent]
      · simp only [Roster.put, if_neg same, if_neg before, List.length_cons, List.lookup_cons,
          skipped, ih tail]
        omega

theorem Roster.size_insert (roster : Roster) (name : String) (chunk : Chunk) :
    (roster.insert name chunk).size =
      roster.size + if roster.get? name = none then 1 else 0 :=
  length_put name chunk roster.ascending

namespace Inventory

variable {before after : Inventory} {construct : Construct} {constructs : List Construct}

theorem FilledBy.roster_eq (filled : FilledBy before after [construct]) {category : Category}
    {old new : Roster} (keyed : category ∈ Category.keyed)
    (oldSlot : before.roster? category = some old) (newSlot : after.roster? category = some new) :
    new = if construct.category = category then old.insert construct.entryName construct.chunk
      else old := by
  apply Roster.ext_get?
  intro name
  have held := filled.entries category keyed name
  rw [chunkUnder?, chunkUnder?, oldSlot, newSlot, latest?_singleton, Option.bind_some,
    Option.bind_some] at held
  rw [held]
  by_cases belongs : construct.category = category
  · by_cases named : name = construct.entryName
    · simp [belongs, named]
    · simp [belongs, named, Ne.symm named]
  · simp [belongs]

theorem FilledBy.size_eq (filled : FilledBy before after [construct]) {category : Category}
    {old new : Roster} (keyed : category ∈ Category.keyed)
    (oldSlot : before.roster? category = some old) (newSlot : after.roster? category = some new) :
    new.size = old.size + if construct.category = category ∧
      before.chunkUnder? category construct.entryName = none then 1 else 0 := by
  rw [filled.roster_eq keyed oldSlot newSlot, chunkUnder?, oldSlot, Option.bind_some]
  by_cases belongs : construct.category = category
  · simp [belongs, Roster.size_insert]
  · simp [belongs]

theorem FilledBy.count_eq (filled : FilledBy before after [construct]) (category : Category) :
    after.count category = before.count category + if construct.category = category ∧
      before.chunkUnder? category construct.entryName = none then 1 else 0 := by
  cases category
  case imports | globalVariables | typeDefinitions | jsxElements =>
    simp only [count, filled.imports, filled.globalVariables, filled.typeDefinitions,
      filled.jsxElements, share_singleton]
    split <;> simp [*, chunkUnder?, roster?]
  case otherBlocks => simp [count, filled.otherBlocks, construct.category_ne_otherBlocks]
  all_goals exact filled.size_eq (by decide) rfl rfl

theorem FilledBy.chunkCount_eq (filled : FilledBy before after [construct]) :
    after.chunkCount = before.chunkCount +
      if before.chunkUnder? construct.category construct.entryName = none then 1 else 0 := by
  have loose := construct.category_ne_otherBlocks
  cases slot : construct.category <;>
    simp [chunkCount, total, Category.all, filled.count_eq, slot] at loose ⊢ <;> omega

structure Grown (before after : Inventory) : Prop where
  imports : before.imports <+: after.imports
  globalVariables : before.globalVariables <+: after.globalVariables
  typeDefinitions : before.typeDefinitions <+: after.typeDefinitions
  jsxElements : before.jsxElements <+: after.jsxElements
  names : ∀ category name, (before.chunkUnder? category name).isSome →
    (after.chunkUnder? category name).isSome

theorem FilledBy.grown (filled : FilledBy before after constructs) : Grown before after where
  imports := ⟨_, filled.imports.symm⟩
  globalVariables := ⟨_, filled.globalVariables.symm⟩
  typeDefinitions := ⟨_, filled.typeDefinitions.symm⟩
  jsxElements := ⟨_, filled.jsxElements.symm⟩
  names category name held := by
    rw [filled.entries category (mem_keyed_of_chunkUnder? held), Option.isSome_or, held,
      Bool.or_true]

end Inventory

def Event.isReplacement : Event → Bool
  | .replaced .. => true
  | _ => false

namespace Outcome

def traces (outcome : Outcome) : Nat :=
  outcome.events.countP fun event => event.level = .trace

def replacements (outcome : Outcome) : Nat :=
  outcome.events.countP Event.isReplacement

def refusals (outcome : Outcome) : Nat :=
  match outcome.halt with
  | some (.fault (.nameCollision _ _)) => 1
  | _ => 0

end Outcome

namespace Walk

variable {before : Inventory}

def Balanced (before : Inventory) (outcome : Outcome) : Prop :=
  outcome.inventory.chunkCount + outcome.replacements + outcome.refusals =
    before.chunkCount + outcome.traces

theorem Balanced.andThen {outcome : Outcome} {next : Inventory → Outcome}
    (here : Balanced before outcome)
    (later : Balanced outcome.inventory (next outcome.inventory)) :
    Balanced before (andThen outcome next) := by
  cases ending : outcome.halt with
  | some halt => rwa [andThen_of_halt ending]
  | none =>
    rw [andThen_of_ok ending]
    simp only [Balanced, Outcome.refusals, Outcome.traces, Outcome.replacements, ending,
      List.countP_append] at here later ⊢
    omega

theorem take_balanced (rules : WalkRules) (before : Inventory) (construct : Construct) :
    Balanced before (take rules before construct) := by
  rcases take_cases rules before construct with ⟨-, -, refused⟩ | ⟨-, filled, entered, change⟩
  · rw [refused]
    simp [Balanced, Outcome.refusals, Outcome.traces, Outcome.replacements, Event.level,
      Event.isReplacement]
  · have count := change.chunkCount_eq
    rw [entered]
    cases held : before.chunkUnder? construct.category construct.entryName <;>
      simp [Balanced, Outcome.refusals, Outcome.traces, Outcome.replacements, Event.level,
        Event.isReplacement, replacement?, held, count]

theorem follow_balanced (rules : WalkRules) (before : Inventory) (constructs : List Construct) :
    Balanced before (follow rules before (constructs.map .construct)) := by
  induction constructs generalizing before with
  | nil => rfl
  | cons construct rest ih => exact (take_balanced rules before construct).andThen (ih _)

theorem halted_balanced (rules : WalkRules) (tree : SyntaxTree) (before : Inventory) :
    Balanced before ⟨before, [], halt? rules tree⟩ := by
  cases ends : halt? rules tree with
  | none => rfl
  | some halt =>
    cases halt with
    | panic panic => rfl
    | fault fault => rw [depthLimit_of_halt? ends]; rfl

theorem kept_of_strict {rules : WalkRules} (strict : rules.policy = .error) (before : Inventory)
    (tree : SyntaxTree) {category : Category} {name : String} {chunk : Chunk}
    (held : before.chunkUnder? category name = some chunk) :
    (walk rules before tree).inventory.chunkUnder? category name = some chunk := by
  rcases collisionFree_or_first before (reached rules tree) with
    free | ⟨earlier, construct, collision⟩
  · have filled := (walk_of_recorded (done_of_collisionFree rules free)).2.1
    exact (kept_of_collisionFree filled free).1 category name chunk held
  · have filled := (walk_of_first_collision strict collision).2
    exact (kept_of_collisionFree filled collision.free).1 category name chunk held

/-- However a walk ends, the chunks it leaves, the replacements it logged and the construct it
refused, if any, are as many as the chunks it found and the constructs it logged. It takes no chunk
out of a list and no name out of a roster, and a strict one no entry either. -/
theorem walk_balances (rules : WalkRules) (before : Inventory) (tree : SyntaxTree) :
    let outcome := walk rules before tree
    outcome.inventory.chunkCount + outcome.replacements + outcome.refusals =
        before.chunkCount + outcome.traces ∧
      before.imports <+: outcome.inventory.imports ∧
      before.globalVariables <+: outcome.inventory.globalVariables ∧
      before.typeDefinitions <+: outcome.inventory.typeDefinitions ∧
      before.jsxElements <+: outcome.inventory.jsxElements ∧
      (∀ category name, (before.chunkUnder? category name).isSome →
        (outcome.inventory.chunkUnder? category name).isSome) ∧
      (rules.policy = .error → ∀ category name chunk,
        before.chunkUnder? category name = some chunk →
          outcome.inventory.chunkUnder? category name = some chunk) := by
  intro outcome
  have balanced : Balanced before outcome := by
    simp only [outcome, walk_eq_record_reached]
    exact (follow_balanced rules before _).andThen (halted_balanced rules tree _)
  have grown : Grown before outcome.inventory := (walk_recorded rules before tree).1.grown
  refine ⟨balanced, grown.imports, grown.globalVariables, grown.typeDefinitions,
    grown.jsxElements, grown.names, ?_⟩
  intro strict category name chunk held
  exact kept_of_strict strict before tree held

def taken : Inventory :=
  { Inventory.empty with functions := Roster.empty.insert "f" ⟨"fn f();", 7, 7⟩ }

theorem walk_balances_taken :
    let strict := walk { twinRules with policy := .error } taken twins
    let lenient := walk twinRules taken twins
    strict.inventory.chunkCount = taken.chunkCount ∧ strict.traces = 1 ∧ strict.refusals = 1 ∧
      strict.inventory.chunkUnder? .functions "f" = some ⟨"fn f();", 7, 7⟩ ∧
      lenient.replacements = 2 ∧ lenient.inventory.chunkCount + 2 = taken.chunkCount + 2 ∧
      (lenient.inventory.chunkUnder? .functions "f").isSome := by
  intro strict lenient
  have held : taken.chunkUnder? .functions "f" = some ⟨"fn f();", 7, 7⟩ := by decide +kernel
  obtain ⟨strictBalance, -, -, -, -, -, kept⟩ :=
    walk_balances { twinRules with policy := .error } taken twins
  obtain ⟨lenientBalance, -, -, -, -, names, -⟩ := walk_balances twinRules taken twins
  have strictCounts : strict.traces = 1 ∧ strict.replacements = 0 ∧ strict.refusals = 1 := by
    simp only [strict, walk_eq_follow]
    decide +kernel
  have lenientCounts : lenient.traces = 2 ∧ lenient.replacements = 2 ∧ lenient.refusals = 0 := by
    simp only [lenient, walk_eq_follow]
    decide +kernel
  refine ⟨?_, strictCounts.1, strictCounts.2.2, kept rfl _ _ _ held, lenientCounts.2.1, ?_,
    names _ _ (by rw [held]; rfl)⟩
  · change strict.inventory.chunkCount + strict.replacements + strict.refusals =
      taken.chunkCount + strict.traces at strictBalance
    omega
  · change lenient.inventory.chunkCount + lenient.replacements + lenient.refusals =
      taken.chunkCount + lenient.traces at lenientBalance
    omega

end Walk

end CodeInventory
