import CodeInventory.Proofs.Filling

set_option autoImplicit false

namespace CodeInventory.Walk

open Inventory

def replacement? (inventory : Inventory) (construct : Construct) : Option Event :=
  (inventory.chunkUnder? construct.category construct.entryName).map fun previous =>
    .replaced construct.category construct.entryName construct.chunk.range previous.range

theorem enter_refused {policy : CollisionPolicy} {roster : Roster} {name : String}
    (strict : policy = .error) (taken : (roster.get? name).isSome) (category : Category)
    (chunk : Chunk) :
    enter policy category name chunk roster = .error (.fault (.nameCollision category name)) := by
  obtain ⟨previous, held⟩ := Option.isSome_iff_exists.mp taken
  simp [enter, strict, held]

theorem enter_ok {policy : CollisionPolicy} {roster : Roster} {name : String}
    (free : policy = .error → roster.get? name = none) (category : Category) (chunk : Chunk) :
    enter policy category name chunk roster = .ok (roster.insert name chunk,
      ((roster.get? name).map fun previous =>
        Event.replaced category name chunk.range previous.range).toList) := by
  cases held : roster.get? name with
  | none => simp [enter, held]
  | some previous =>
    cases policy with
    | error => simp [held] at free
    | overwrite => simp [enter, held]

theorem record_refused {policy : CollisionPolicy} {inventory : Inventory} {construct : Construct}
    (strict : policy = .error)
    (taken : (inventory.chunkUnder? construct.category construct.entryName).isSome) :
    record policy inventory construct =
      .error (.fault (.nameCollision construct.category construct.entryName)) := by
  unfold record
  cases slot : construct.category <;> rw [slot] at taken <;>
    simp only [chunkUnder?, roster?, Option.bind_some, Option.bind_none, Option.isSome_none,
      Bool.false_eq_true] at taken
  all_goals simp only [enter_refused strict taken]; rfl

theorem record_ok {policy : CollisionPolicy} {inventory : Inventory} {construct : Construct}
    (free : policy = .error →
      inventory.chunkUnder? construct.category construct.entryName = none) :
    ∃ filled, record policy inventory construct =
        .ok (filled, (replacement? inventory construct).toList) ∧
      FilledBy inventory filled [construct] := by
  unfold record
  have placed := construct.category_ne_otherBlocks
  cases slot : construct.category
  case otherBlocks => exact absurd slot placed
  case imports | globalVariables | typeDefinitions | jsxElements =>
    refine ⟨_, by simp only [replacement?, slot]; rfl, ?_⟩
    constructor
    case entries =>
      intro category keyed name
      have other : construct.category ≠ category := by
        rintro rfl
        simp [Category.keyed, slot] at keyed
      have kept : (latest? category name [construct]).or (inventory.chunkUnder? category name) =
          inventory.chunkUnder? category name := by
        simp [latest?_singleton, other]
      refine Eq.trans ?_ kept.symm
      cases category <;> rfl
    all_goals simp [share_singleton, slot]
  all_goals
    simp only [slot, chunkUnder?, roster?, Option.bind_some] at free
    dsimp only
    rw [enter_ok free]
    refine ⟨_, by simp only [replacement?, slot]; rfl, ?_⟩
    constructor
    case entries =>
      intro category keyed name
      rw [latest?_singleton, slot]
      by_cases same : construct.entryName = name
      · cases category <;> simp [chunkUnder?, roster?, same]
      · cases category <;> simp [chunkUnder?, roster?, same, Ne.symm same]
    all_goals simp [share_singleton, slot]

-- Under the strict policy a construct is refused when its name is taken, and that is the only
-- failure.
theorem take_cases (rules : WalkRules) (inventory : Inventory) (construct : Construct) :
    (rules.policy = .error ∧
      (inventory.chunkUnder? construct.category construct.entryName).isSome ∧
      take rules inventory construct = ⟨inventory, [.found construct],
        some (.fault (.nameCollision construct.category construct.entryName))⟩) ∨
    ((rules.policy = .error →
        inventory.chunkUnder? construct.category construct.entryName = none) ∧
      ∃ filled, take rules inventory construct =
          ⟨filled, .found construct :: (replacement? inventory construct).toList, none⟩ ∧
        FilledBy inventory filled [construct]) := by
  by_cases refused : rules.policy = .error ∧
      (inventory.chunkUnder? construct.category construct.entryName).isSome
  · left
    refine ⟨refused.1, refused.2, ?_⟩
    simp [take, record_refused refused.1 refused.2]
  · right
    have free : rules.policy = .error →
        inventory.chunkUnder? construct.category construct.entryName = none := by
      intro strict
      simpa [strict] using refused
    obtain ⟨filled, recorded, change⟩ := record_ok free
    refine ⟨free, filled, ?_, change⟩
    simp [take, recorded]

-- Constructs without a name share one key, so a strict walk refuses the second of them in a roster.
theorem take_unnamed {rules : WalkRules} {construct : Construct} (unnamed : construct.name = none)
    (inventory : Inventory) :
    let outcome := take rules inventory construct
    (outcome.halt = none →
        (construct.category ∈ Category.keyed →
          outcome.inventory.chunkUnder? construct.category "<anonymous>" = some construct.chunk) ∧
        (construct.category = .typeDefinitions → outcome.inventory.typeDefinitions =
          inventory.typeDefinitions ++ [⟨"<anonymous>", construct.chunk⟩])) ∧
      ∀ halt, outcome.halt = some halt → rules.policy = .error ∧
        (inventory.chunkUnder? construct.category "<anonymous>").isSome ∧
        halt = .fault (.nameCollision construct.category "<anonymous>") := by
  intro outcome
  have named := Construct.entryName_of_unnamed unnamed
  rcases take_cases rules inventory construct with
    ⟨strict, taken, refused⟩ | ⟨-, filled, entered, change⟩
  · rw [named] at taken refused
    simp [outcome, refused, strict, taken, eq_comm]
  · have here : outcome.inventory = filled := by rw [show outcome = _ from entered]
    have done : outcome.halt = none := by rw [show outcome = _ from entered]
    rw [here, done]
    refine ⟨fun _ => ⟨fun keyed => ?_, fun listed => ?_⟩, by simp⟩
    · rw [change.entries _ keyed, latest?_singleton, named, if_pos ⟨rfl, rfl⟩]
      rfl
    · simp [change.typeDefinitions, share_singleton, listed, named]

end CodeInventory.Walk
