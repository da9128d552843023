import CodeInventory.Proofs.DepthLimit

set_option autoImplicit false

namespace CodeInventory.Walk

open Inventory

variable {rules : WalkRules} {before after : Inventory} {tree : SyntaxTree}
  {constructs earlier : List Construct} {construct : Construct}

theorem kept_of_collisionFree (filled : FilledBy before after constructs)
    (free : CollisionFree before constructs) :
    (∀ category name chunk, before.chunkUnder? category name = some chunk →
      after.chunkUnder? category name = some chunk) ∧
    ∀ construct ∈ constructs, construct.category ∈ Category.keyed →
      after.chunkUnder? construct.category construct.entryName = some construct.chunk := by
  constructor
  · intro category name chunk held
    have taken : (before.chunkUnder? category name).isSome := by simp [held]
    have keyed := mem_keyed_of_chunkUnder? taken
    -- A construct under a name that is held would collide.
    have absent : latest? category name constructs = none := by
      rw [← Option.not_isSome_iff_eq_none, isSome_latest?_iff]
      rintro ⟨construct, member, rfl, rfl⟩
      obtain ⟨earlier, later, split⟩ := List.mem_iff_append.mp member
      exact free earlier construct later split ⟨keyed, .inl taken⟩
    rw [filled.entries category keyed, absent, Option.none_or, held]
  · intro construct member keyed
    obtain ⟨earlier, later, split⟩ := List.mem_iff_append.mp member
    -- So would a second one under the name of this one.
    have absent : latest? construct.category construct.entryName later = none := by
      rw [← Option.not_isSome_iff_eq_none, isSome_latest?_iff]
      rintro ⟨other, inLater, sameCategory, sameName⟩
      obtain ⟨between, rest, splitLater⟩ := List.mem_iff_append.mp inLater
      refine free (earlier ++ construct :: between) other rest (by simp [split, splitLater]) ?_
      exact ⟨sameCategory ▸ keyed, .inr ⟨construct, by simp, sameCategory.symm, sameName.symm⟩⟩
    rw [filled.entries _ keyed, split, latest?_append, ← List.singleton_append, latest?_append,
      absent, latest?_singleton]
    simp

theorem strict_eq_lenient (free : CollisionFree before (reached rules tree)) :
    (walk { rules with policy := .error } before tree).halt =
        (walk { rules with policy := .overwrite } before tree).halt ∧
      (walk { rules with policy := .overwrite } before tree).inventory =
        (walk { rules with policy := .error } before tree).inventory := by
  obtain ⟨strictEnding, strictFilled, -⟩ :=
    walk_of_recorded (done_of_collisionFree { rules with policy := .error } free)
  obtain ⟨lenientEnding, lenientFilled, -⟩ :=
    walk_of_recorded (done_of_collisionFree { rules with policy := .overwrite } free)
  exact ⟨strictEnding.trans lenientEnding.symm, lenientFilled.unique strictFilled⟩

theorem walk_of_first_collision (strict : rules.policy = .error)
    (collision : FirstCollision before (reached rules tree) earlier construct) :
    (walk rules before tree).halt =
        some (.fault (.nameCollision construct.category construct.entryName)) ∧
      FilledBy before (walk rules before tree).inventory earlier := by
  obtain ⟨refused, filled⟩ := refused_of_first strict collision
  rw [walk_eq_record_reached, andThen_of_halt refused]
  exact ⟨refused, filled⟩

theorem nameCollision_iff (strict : rules.policy = .error) (before : Inventory)
    (tree : SyntaxTree) (category : Category) (name : String) :
    (walk rules before tree).halt = some (.fault (.nameCollision category name)) ↔
      ∃ earlier construct, FirstCollision before (reached rules tree) earlier construct ∧
        construct.category = category ∧ construct.entryName = name := by
  constructor
  · intro failed
    rcases collisionFree_or_first before (reached rules tree) with
      free | ⟨earlier, construct, collision⟩
    · obtain ⟨ending, -⟩ := walk_of_recorded (done_of_collisionFree rules free)
      cases depthLimit_of_halt? (ending.symm.trans failed)
    · have refused := (walk_of_first_collision strict collision).1
      obtain ⟨rfl, rfl⟩ : construct.category = category ∧ construct.entryName = name := by
        simpa using refused.symm.trans failed
      exact ⟨earlier, construct, collision, rfl, rfl⟩
  · rintro ⟨earlier, construct, collision, rfl, rfl⟩
    exact (walk_of_first_collision strict collision).1

theorem exists_first_iff (before : Inventory) (constructs : List Construct) :
    (∃ earlier construct, FirstCollision before constructs earlier construct) ↔
      ∃ earlier construct later, constructs = earlier ++ construct :: later ∧
        Collides before earlier construct := by
  constructor
  · rintro ⟨earlier, construct, collision⟩
    obtain ⟨later, split⟩ := collision.split
    exact ⟨earlier, construct, later, split, collision.collides⟩
  · rintro ⟨earlier, construct, later, split, collides⟩
    refine (collisionFree_or_first before constructs).resolve_left ?_
    intro free
    exact free earlier construct later split collides

/-- Where a strict walk meets no collision, an overwriting walk ends alike. Otherwise it refuses the
first construct whose name is taken, of those that the overwriting walk records, and keeps what was
recorded before it. -/
theorem strict_walk_stops_at_first_collision (rules : WalkRules) (before : Inventory)
    (tree : SyntaxTree) :
    let strict := walk { rules with policy := .error } before tree
    let lenient := walk { rules with policy := .overwrite } before tree
    (strict.halt = none → lenient.halt = none ∧ lenient.inventory = strict.inventory) ∧
      (∀ limit, strict.halt = some (.fault (.depthLimitExceeded limit)) →
        lenient.halt = some (.fault (.depthLimitExceeded limit)) ∧
          lenient.inventory = strict.inventory) ∧
      (lenient.found = reached rules tree ∧ FilledBy before lenient.inventory lenient.found) ∧
      ((∃ category name, strict.halt = some (.fault (.nameCollision category name))) ↔
        ∃ earlier construct later, lenient.found = earlier ++ construct :: later ∧
          Collides before earlier construct) ∧
      (∀ category name, strict.halt = some (.fault (.nameCollision category name)) ↔
        ∃ earlier construct, FirstCollision before lenient.found earlier construct ∧
          construct.category = category ∧ construct.entryName = name) ∧
      ∀ earlier construct, FirstCollision before lenient.found earlier construct →
        FilledBy before strict.inventory earlier ∧
          (∀ chunk,
            before.chunkUnder? construct.category construct.entryName = some chunk →
              strict.inventory.chunkUnder? construct.category construct.entryName =
                some chunk) ∧
          ∀ other ∈ earlier, other.category = construct.category →
            other.entryName = construct.entryName →
              strict.inventory.chunkUnder? construct.category construct.entryName =
                some other.chunk := by
  intro strict lenient
  have strictPolicy : ({ rules with policy := .error } : WalkRules).policy = .error := rfl
  have lenientPolicy : ({ rules with policy := .overwrite } : WalkRules).policy = .overwrite := rfl
  -- The policies agree on what a walk reaches, so the names collide in one list for both.
  obtain ⟨-, filled, found⟩ : _ ∧ FilledBy before lenient.inventory (reached rules tree) ∧
      lenient.found = reached rules tree := walk_of_overwrite lenientPolicy before tree
  have refused_iff : ∀ category name, strict.halt = some (.fault (.nameCollision category name)) ↔
      ∃ earlier construct, FirstCollision before (reached rules tree) earlier construct ∧
        construct.category = category ∧ construct.entryName = name :=
    nameCollision_iff strictPolicy before tree
  have free_of_other
      (other : ∀ category name, strict.halt ≠ some (.fault (.nameCollision category name))) :
      CollisionFree before (reached rules tree) := by
    refine (collisionFree_or_first before (reached rules tree)).resolve_right ?_
    rintro ⟨earlier, construct, collision⟩
    exact other _ _ ((refused_iff _ _).mpr ⟨earlier, construct, collision, rfl, rfl⟩)
  rw [found]
  refine ⟨?_, ?_, ⟨rfl, filled⟩, ?_, refused_iff, ?_⟩
  · intro done
    obtain ⟨sameFault, sameInventory⟩ := strict_eq_lenient (free_of_other (by simp [done]))
    exact ⟨sameFault.symm.trans done, sameInventory⟩
  · intro limit failed
    obtain ⟨sameFault, sameInventory⟩ := strict_eq_lenient (free_of_other (by simp [failed]))
    exact ⟨sameFault.symm.trans failed, sameInventory⟩
  · rw [← exists_first_iff]
    constructor
    · rintro ⟨category, name, refused⟩
      obtain ⟨earlier, construct, collision, -⟩ := (refused_iff category name).mp refused
      exact ⟨earlier, construct, collision⟩
    · rintro ⟨earlier, construct, collision⟩
      exact ⟨_, _, (refused_iff _ _).mpr ⟨earlier, construct, collision, rfl, rfl⟩⟩
  · intro earlier construct collision
    obtain ⟨-, strictFilled⟩ := walk_of_first_collision strictPolicy collision
    obtain ⟨keptBefore, keptEarlier⟩ := kept_of_collisionFree strictFilled collision.free
    refine ⟨strictFilled, keptBefore _ _, ?_⟩
    intro other member sameCategory sameName
    rw [← sameCategory, ← sameName]
    exact keptEarlier other member (sameCategory ▸ collision.collides.1)

theorem strict_walk_stops_at_first_collision_twins :
    (walk { twinRules with policy := .error } .empty twins).halt =
        some (.fault (.nameCollision .functions "f")) ∧
      (walk { twinRules with policy := .error } .empty twins).inventory.chunkUnder?
        .functions "f" = some firstTwin.chunk := by
  obtain ⟨-, -, ⟨found, -⟩, -, refused, kept⟩ :=
    strict_walk_stops_at_first_collision twinRules .empty twins
  have reachedTwins : reached twinRules twins = [firstTwin, secondTwin] := by decide +kernel
  have collision : FirstCollision .empty
      (walk { twinRules with policy := .overwrite } .empty twins).found [firstTwin] secondTwin := by
    refine ⟨⟨[], found.trans reachedTwins⟩, by decide +kernel, ?_⟩
    exact collisionFree_snoc (collisionFree_nil _) (by decide +kernel)
  constructor
  · exact (refused .functions "f").mpr ⟨[firstTwin], secondTwin, collision, by decide, by decide⟩
  · exact (kept _ _ collision).2.2 firstTwin (by simp) (by decide) (by decide)

end CodeInventory.Walk
