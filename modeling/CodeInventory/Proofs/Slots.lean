import CodeInventory.Proofs.Balance

set_option autoImplicit false

namespace CodeInventory

inductive Slot where
  | chunks (entries : List Chunk)
  | namedChunks (entries : List NamedChunk)
  | roster (roster : Roster)
  | texts (entries : List String)

-- A list gains a chunk at its end. A roster gains one under the name of the construct, and under
-- every other name stands what stood there.
def Slot.Gains (construct : Construct) : Slot → Slot → Prop
  | .chunks before, .chunks after => after = before ++ [construct.chunk]
  | .namedChunks before, .namedChunks after =>
      after = before ++ [⟨construct.entryName, construct.chunk⟩]
  | .roster before, .roster after => ∀ name,
      after.get? name =
        if name = construct.entryName then some construct.chunk else before.get? name
  | _, _ => False

def Construct.Separate (first second : Construct) : Prop :=
  first.category = second.category →
    first.category ∈ Category.keyed ∧ first.entryName ≠ second.entryName

theorem Construct.Separate.symm {first second : Construct} (apart : first.Separate second) :
    second.Separate first := by
  intro same
  obtain ⟨keyed, different⟩ := apart same.symm
  exact ⟨same ▸ keyed, different.symm⟩

theorem Roster.mem_names (roster : Roster) (name : String) :
    name ∈ roster.names ↔ (roster.get? name).isSome := by
  simp [names, Option.isSome_iff_exists, get?_eq_some_iff]

theorem Roster.names_ascending (roster : Roster) :
    (roster.names.map Text.octets).Pairwise (· < ·) := by
  rw [names, List.map_map, List.pairwise_map]
  exact roster.ascending

theorem Roster.names_nodup (roster : Roster) : roster.names.Nodup := by
  rw [List.nodup_iff_pairwise_ne, names, List.pairwise_map]
  refine roster.ascending.imp ?_
  intro left right before same
  exact not_precedes_self right.1 (same ▸ before)

namespace Inventory

variable {before after : Inventory} {construct first second : Construct}
  {constructs : List Construct} {category : Category}

def slot (inventory : Inventory) : Category → Slot
  | .imports => .chunks inventory.imports
  | .globalVariables => .chunks inventory.globalVariables
  | .typeDefinitions => .namedChunks inventory.typeDefinitions
  | .functions => .roster inventory.functions
  | .asyncFunctions => .roster inventory.asyncFunctions
  | .classes => .roster inventory.classes
  | .hooks => .roster inventory.hooks
  | .components => .roster inventory.components
  | .jsxElements => .chunks inventory.jsxElements
  | .otherBlocks => .texts inventory.otherBlocks

theorem exists_roster (inventory : Inventory) (keyed : category ∈ Category.keyed) :
    ∃ roster, inventory.roster? category = some roster ∧
      inventory.slot category = .roster roster := by
  cases category <;> simp [Category.keyed, roster?, slot] at keyed ⊢

theorem FilledBy.roster_slot (filled : FilledBy before after [construct])
    (keyed : category ∈ Category.keyed) :
    ∃ old, before.slot category = .roster old ∧ after.slot category = .roster
      (if construct.category = category then old.insert construct.entryName construct.chunk
        else old) := by
  obtain ⟨old, oldRoster, oldSlot⟩ := before.exists_roster keyed
  obtain ⟨new, newRoster, newSlot⟩ := after.exists_roster keyed
  exact ⟨old, oldSlot, filled.roster_eq keyed oldRoster newRoster ▸ newSlot⟩

theorem FilledBy.gains (filled : FilledBy before after [construct]) :
    (before.slot construct.category).Gains construct (after.slot construct.category) := by
  by_cases keyed : construct.category ∈ Category.keyed
  · obtain ⟨old, oldSlot, newSlot⟩ := filled.roster_slot keyed
    rw [oldSlot, newSlot, if_pos rfl]
    exact old.get?_insert construct.entryName construct.chunk
  · cases belongs : construct.category
    case imports | globalVariables | typeDefinitions | jsxElements =>
      simp [Slot.Gains, slot, filled.imports, filled.globalVariables, filled.typeDefinitions,
        filled.jsxElements, share_singleton, belongs]
    case otherBlocks => exact absurd belongs construct.category_ne_otherBlocks
    all_goals exact absurd (by simp [belongs, Category.keyed]) keyed

theorem FilledBy.slot_eq (filled : FilledBy before after [construct])
    (other : construct.category ≠ category) : after.slot category = before.slot category := by
  by_cases keyed : category ∈ Category.keyed
  · obtain ⟨old, oldSlot, newSlot⟩ := filled.roster_slot keyed
    rw [oldSlot, newSlot, if_neg other]
  · cases category
    case imports | globalVariables | typeDefinitions | jsxElements | otherBlocks =>
      simp [slot, filled.imports, filled.globalVariables, filled.typeDefinitions,
        filled.jsxElements, filled.otherBlocks, share_singleton, other]
    all_goals exact absurd (by decide) keyed

theorem FilledBy.congr {others : List Construct} (filled : FilledBy before after constructs)
    (listed : ∀ category ∉ Category.keyed, share category constructs = share category others)
    (entered : ∀ category name, latest? category name constructs = latest? category name others) :
    FilledBy before after others where
  imports := listed .imports (by decide) ▸ filled.imports
  globalVariables := listed .globalVariables (by decide) ▸ filled.globalVariables
  typeDefinitions := listed .typeDefinitions (by decide) ▸ filled.typeDefinitions
  jsxElements := listed .jsxElements (by decide) ▸ filled.jsxElements
  entries category keyed name := entered category name ▸ filled.entries category keyed name
  otherBlocks := filled.otherBlocks
  placed construct _ := construct.category_ne_otherBlocks

theorem share_swap (apart : first.Separate second) (listed : category ∉ Category.keyed) :
    share category [first, second] = share category [second, first] := by
  by_cases here : first.category = category
  · have away : second.category ≠ category := by
      intro same
      exact listed (here ▸ (apart (here.trans same.symm)).1)
    simp [share, here, away]
  · simp [share, List.filter_cons, here]

theorem latest?_swap (apart : first.Separate second) (category : Category) (name : String) :
    latest? category name [first, second] = latest? category name [second, first] := by
  have both (one other : Construct) : latest? category name [one, other] =
      (latest? category name [other]).or (latest? category name [one]) :=
    latest?_append category name [one] [other]
  rw [both, both, latest?_singleton, latest?_singleton]
  split
  next here =>
    have away : ¬ (first.category = category ∧ first.entryName = name) := by
      rintro ⟨same, named⟩
      exact (apart (same.trans here.1.symm)).2 (named.trans here.2.symm)
    rw [if_neg away]
    rfl
  next => exact Option.or_none.symm

theorem FilledBy.swap (filled : FilledBy before after [first, second])
    (apart : first.Separate second) : FilledBy before after [second, first] :=
  filled.congr (fun _ => share_swap apart) (latest?_swap apart)

theorem FilledBy.chunkUnder?_eq (filled : FilledBy before after [first])
    (apart : first.Separate second) :
    after.chunkUnder? second.category second.entryName =
      before.chunkUnder? second.category second.entryName := by
  by_cases keyed : second.category ∈ Category.keyed
  · have away : ¬ (first.category = second.category ∧ first.entryName = second.entryName) :=
      fun ⟨same, named⟩ => (apart same).2 named
    rw [filled.entries _ keyed, latest?_singleton, if_neg away, Option.none_or]
  · have absent (inventory : Inventory) :
        inventory.chunkUnder? second.category second.entryName = none := by
      rw [← Option.not_isSome_iff_eq_none]
      exact fun held => keyed (mem_keyed_of_chunkUnder? held)
    rw [absent, absent]

end Inventory

namespace Walk

open Inventory

variable {before : Inventory} {rules : WalkRules} {construct : Construct}

def takeAll (inventory : Inventory) : List (WalkRules × Construct) → Inventory
  | [] => inventory
  | (rules, construct) :: rest => takeAll (take rules inventory construct).inventory rest

theorem take_of_overwrite (lenient : rules.policy = .overwrite) (before : Inventory)
    (construct : Construct) :
    ∃ filled, take rules before construct =
        ⟨filled, .found construct :: (replacement? before construct).toList, none⟩ ∧
      FilledBy before filled [construct] := by
  rcases take_cases rules before construct with ⟨strict, -⟩ | ⟨-, entered⟩
  · simp [lenient] at strict
  · exact entered

theorem isSome_take_iff (rules : WalkRules) (before : Inventory) (construct : Construct)
    {category : Category} (keyed : category ∈ Category.keyed) (name : String) :
    ((take rules before construct).inventory.chunkUnder? category name).isSome ↔
      (before.chunkUnder? category name).isSome ∨
        construct.category = category ∧ construct.entryName = name := by
  rcases take_cases rules before construct with ⟨-, taken, refused⟩ | ⟨-, filled, entered, change⟩
  · rw [refused]
    refine ⟨.inl, ?_⟩
    rintro (held | ⟨rfl, rfl⟩)
    · exact held
    · exact taken
  · rw [entered, change.entries category keyed, latest?_singleton]
    split <;> simp [*]

theorem isSome_takeAll_iff (steps : List (WalkRules × Construct)) (before : Inventory)
    {category : Category} (keyed : category ∈ Category.keyed) (name : String) :
    ((takeAll before steps).chunkUnder? category name).isSome ↔
      (before.chunkUnder? category name).isSome ∨
        ∃ step ∈ steps, step.2.category = category ∧ step.2.entryName = name := by
  induction steps generalizing before with
  | nil => simp [takeAll]
  | cons step rest ih =>
    obtain ⟨rules, construct⟩ := step
    rw [takeAll, ih, isSome_take_iff rules before construct keyed]
    simp [or_assoc]

theorem names_takeAll (steps : List (WalkRules × Construct)) {category : Category}
    (keyed : category ∈ Category.keyed) :
    ∃ roster, (takeAll .empty steps).roster? category = some roster ∧ ∀ name,
      name ∈ roster.names ↔
        ∃ step ∈ steps, step.2.category = category ∧ step.2.entryName = name := by
  obtain ⟨roster, held, -⟩ := (takeAll .empty steps).exists_roster keyed
  refine ⟨roster, held, fun name => ?_⟩
  have stands := isSome_takeAll_iff steps .empty keyed name
  have absent : Inventory.empty.chunkUnder? category name = none := by
    cases category <;> rfl
  rw [chunkUnder?, held, Option.bind_some, ← roster.mem_names, absent] at stands
  simpa using stands

theorem halt_eq_none_iff (rules : WalkRules) (before : Inventory) (construct : Construct) :
    (take rules before construct).halt = none ↔ (rules.policy = .error →
      before.chunkUnder? construct.category construct.entryName = none) := by
  rcases take_cases rules before construct with
    ⟨strict, taken, refused⟩ | ⟨free, filled, entered, -⟩
  · have held : before.chunkUnder? construct.category construct.entryName ≠ none :=
      Option.isSome_iff_ne_none.mp taken
    simp [refused, strict, held]
  · simpa [entered] using free

theorem slots_of_taken (done : (take rules before construct).halt = none) :
    (before.slot construct.category).Gains construct
        ((take rules before construct).inventory.slot construct.category) ∧
      ∀ category ≠ construct.category,
        (take rules before construct).inventory.slot category = before.slot category := by
  rcases take_cases rules before construct with ⟨-, -, refused⟩ | ⟨-, filled, entered, change⟩
  · simp [refused] at done
  · rw [entered]
    exact ⟨change.gains, fun category other => change.slot_eq (Ne.symm other)⟩

theorem unchanged_of_refused (failed : (take rules before construct).halt ≠ none) :
    (take rules before construct).inventory = before := by
  rcases take_cases rules before construct with ⟨-, -, refused⟩ | ⟨-, filled, entered, -⟩
  · rw [refused]
  · simp [entered] at failed

theorem replacement?_of_separate {after : Inventory} {first second : Construct}
    (filled : FilledBy before after [first]) (apart : first.Separate second) :
    replacement? after second = replacement? before second := by
  rw [replacement?, replacement?, filled.chunkUnder?_eq apart]

theorem take_comm {first second : WalkRules × Construct} (before : Inventory)
    (lenient : first.1.policy = .overwrite ∧ second.1.policy = .overwrite)
    (apart : first.2.Separate second.2) :
    ∃ both,
      take second.1 (take first.1 before first.2).inventory second.2 =
        ⟨both, (take second.1 before second.2).events, none⟩ ∧
      take first.1 (take second.1 before second.2).inventory first.2 =
        ⟨both, (take first.1 before first.2).events, none⟩ := by
  obtain ⟨one, tookOne, changeOne⟩ := take_of_overwrite lenient.1 before first.2
  obtain ⟨two, tookTwo, changeTwo⟩ := take_of_overwrite lenient.2 before second.2
  obtain ⟨both, tookThen, changeThen⟩ := take_of_overwrite lenient.2 one second.2
  obtain ⟨other, tookBack, changeBack⟩ := take_of_overwrite lenient.1 two first.2
  -- Either order fills the inventory with the same two constructs.
  have same : other = both :=
    (changeTwo.trans changeBack).unique ((changeOne.trans changeThen).swap apart)
  refine ⟨both, ?_, ?_⟩
  · rw [tookOne, tookThen, tookTwo, replacement?_of_separate changeOne apart]
  · rw [tookTwo, tookBack, tookOne, replacement?_of_separate changeTwo apart.symm, same]

/-- However constructs were taken, the names in a roster are those that went there, once each and in
the ascending order of their octets. Taking a construct changes its own slot alone, or nothing when
it is refused. Constructs that do not meet can be taken in either order. -/
theorem recording_is_local (steps : List (WalkRules × Construct)) :
    (∀ category ∈ Category.keyed,
        ∃ roster, (takeAll .empty steps).roster? category = some roster ∧
          (roster.names.map Text.octets).Pairwise (· < ·) ∧ roster.names.Nodup ∧
          ∀ name, name ∈ roster.names ↔
            ∃ step ∈ steps, step.2.category = category ∧ step.2.entryName = name) ∧
      (∀ before rules construct,
        let outcome := take rules before construct
        (outcome.halt = none ↔ (rules.policy = .error →
          before.chunkUnder? construct.category construct.entryName = none)) ∧
        (outcome.halt = none →
          (before.slot construct.category).Gains construct
              (outcome.inventory.slot construct.category) ∧
            ∀ category ≠ construct.category,
              outcome.inventory.slot category = before.slot category) ∧
        (outcome.halt ≠ none → outcome.inventory = before)) ∧
      ∀ before (first second : WalkRules × Construct),
        first.1.policy = .overwrite → second.1.policy = .overwrite →
          first.2.Separate second.2 →
            let there := take second.1 (take first.1 before first.2).inventory second.2
            let back := take first.1 (take second.1 before second.2).inventory first.2
            there.inventory = back.inventory ∧ there.halt = none ∧ back.halt = none ∧
              there.events = (take second.1 before second.2).events ∧
              back.events = (take first.1 before first.2).events := by
  refine ⟨?_, fun before rules construct =>
    ⟨halt_eq_none_iff rules before construct, slots_of_taken, unchanged_of_refused⟩, ?_⟩
  · intro category keyed
    obtain ⟨roster, held, names⟩ := names_takeAll steps keyed
    exact ⟨roster, held, roster.names_ascending, roster.names_nodup, names⟩
  · intro before first second one two apart there back
    obtain ⟨both, tookThere, tookBack⟩ := take_comm before ⟨one, two⟩ apart
    simp [there, back, tookThere, tookBack]

def slotRules (policy : CollisionPolicy) : WalkRules :=
  ⟨.rust, .empty, policy, 0⟩

def slotFunction (name code : String) : Construct :=
  ⟨.functionLike, some name, ⟨code, 1, 1⟩⟩

-- The last but one is refused. In sixteen bit units the smile would come before U+FFFD.
def slotSteps : List (WalkRules × Construct) :=
  [(slotRules .overwrite, slotFunction "😀" "1"), (slotRules .overwrite, slotFunction "z" "2"),
    (slotRules .overwrite, slotFunction "\uFFFD" "3"), (slotRules .error, slotFunction "z" "4"),
    (slotRules .error, slotFunction "a" "5")]

def slotInventory : Inventory :=
  { Inventory.empty with
    functions := Roster.ofList
      [("a", ⟨"5", 1, 1⟩), ("z", ⟨"2", 1, 1⟩), ("\uFFFD", ⟨"3", 1, 1⟩), ("😀", ⟨"1", 1, 1⟩)] }

theorem recording_is_local_smile :
    let strict := take (slotRules .error) slotInventory (slotFunction "z" "6")
    let later := (take (slotRules .overwrite) slotInventory (slotFunction "z" "6")).inventory
    let other := (take (slotRules .overwrite) slotInventory (slotFunction "b" "7")).inventory
    takeAll .empty slotSteps = slotInventory ∧
      slotInventory.functions.names = ["a", "z", "\uFFFD", "😀"] ∧
      (slotInventory.functions.names.map Text.octets).Pairwise (· < ·) ∧
      strict.halt = some (.fault (.nameCollision .functions "z")) ∧ strict.inventory = slotInventory ∧
      later.functions.get? "z" = some ⟨"6", 1, 1⟩ ∧
      later.functions.get? "a" = slotInventory.functions.get? "a" ∧
      later.slot .classes = slotInventory.slot .classes ∧
      (take (slotRules .overwrite) later (slotFunction "b" "7")).inventory =
        (take (slotRules .overwrite) other (slotFunction "z" "6")).inventory := by
  have reached : takeAll .empty slotSteps = slotInventory := by decide +kernel
  have category : (slotFunction "z" "6").category = .functions := by decide
  obtain ⟨names, steps, orders⟩ := recording_is_local slotSteps
  obtain ⟨roster, held, ascending, -⟩ := names .functions (by decide)
  rw [reached] at held
  obtain rfl : slotInventory.functions = roster := Option.some.inj held
  obtain ⟨-, -, refused⟩ := steps slotInventory (slotRules .error) (slotFunction "z" "6")
  obtain ⟨free, entered, -⟩ := steps slotInventory (slotRules .overwrite) (slotFunction "z" "6")
  obtain ⟨gains, others⟩ := entered (free.mpr nofun)
  rw [category] at gains others
  refine ⟨reached, by decide +kernel, ascending, by decide +kernel, refused (by decide +kernel),
    gains "z", gains "a", others .classes (by decide), ?_⟩
  exact (orders slotInventory (slotRules .overwrite, slotFunction "z" "6")
    (slotRules .overwrite, slotFunction "b" "7") rfl rfl (fun _ => by decide +kernel)).1

end Walk

end CodeInventory
