import Mathlib.Data.List.Induction
import CodeInventory.Proofs.Trail

set_option autoImplicit false

namespace CodeInventory

def Event.found? : Event → Option Construct
  | .found construct => some construct
  | _ => none

def Outcome.found (outcome : Outcome) : List Construct :=
  outcome.events.filterMap Event.found?

namespace Walk

open Inventory

variable {rules : WalkRules} {before after : Inventory} {earlier constructs : List Construct}
  {construct : Construct}

-- The construct belongs into a roster where its name is taken, from the start or by an earlier
-- construct.
def Collides (before : Inventory) (earlier : List Construct) (construct : Construct) : Prop :=
  construct.category ∈ Category.keyed ∧
    ((before.chunkUnder? construct.category construct.entryName).isSome ∨
      ∃ other ∈ earlier,
        other.category = construct.category ∧ other.entryName = construct.entryName)

instance (before : Inventory) (earlier : List Construct) : DecidablePred (Collides before earlier) :=
  fun _ => inferInstanceAs (Decidable (_ ∧ _))

def CollisionFree (before : Inventory) (constructs : List Construct) : Prop :=
  ∀ earlier construct later, constructs = earlier ++ construct :: later →
    ¬ Collides before earlier construct

structure FirstCollision (before : Inventory) (constructs earlier : List Construct)
    (construct : Construct) : Prop where
  split : ∃ later, constructs = earlier ++ construct :: later
  collides : Collides before earlier construct
  free : CollisionFree before earlier

theorem taken_iff_collides (filled : FilledBy before after earlier) (construct : Construct) :
    (after.chunkUnder? construct.category construct.entryName).isSome ↔
      Collides before earlier construct := by
  by_cases keyed : construct.category ∈ Category.keyed
  · rw [filled.entries _ keyed, Option.isSome_or, Bool.or_eq_true, isSome_latest?_iff]
    simp [Collides, keyed, or_comm]
  · have absent : ¬ (after.chunkUnder? construct.category construct.entryName).isSome :=
      fun taken => keyed (mem_keyed_of_chunkUnder? taken)
    simp [Collides, keyed, absent]

theorem found_take (rules : WalkRules) (before : Inventory) (construct : Construct) :
    (take rules before construct).found = [construct] := by
  rcases take_cases rules before construct with ⟨-, -, refused⟩ | ⟨-, filled, entered, -⟩
  · rw [refused]
    rfl
  · rw [entered]
    cases held : before.chunkUnder? construct.category construct.entryName <;>
      simp [Outcome.found, Event.found?, replacement?, held]

theorem recorded_of_done
    (done : (follow rules before (constructs.map .construct)).halt = none) :
    FilledBy before (follow rules before (constructs.map .construct)).inventory constructs ∧
      (follow rules before (constructs.map .construct)).found = constructs := by
  induction constructs generalizing before with
  | nil => exact ⟨FilledBy.refl before, rfl⟩
  | cons construct rest ih =>
    simp only [List.map_cons, follow] at done ⊢
    rcases take_cases rules before construct with ⟨-, -, refused⟩ | ⟨-, filled, entered, change⟩
    · rw [andThen_of_halt (by rw [refused])] at done
      simp [refused] at done
    · have here := found_take rules before construct
      rw [andThen_of_ok (by rw [entered])] at done ⊢
      simp only [entered, Outcome.found, List.filterMap_append] at done here ⊢
      obtain ⟨later, foundLater⟩ := ih done
      refine ⟨change.trans later, ?_⟩
      rw [here]
      exact congrArg (construct :: ·) foundLater

theorem done_of_overwrite (lenient : rules.policy = .overwrite) (before : Inventory)
    (constructs : List Construct) :
    (follow rules before (constructs.map .construct)).halt = none := by
  induction constructs generalizing before with
  | nil => rfl
  | cons construct rest ih =>
    rcases take_cases rules before construct with ⟨strict, -⟩ | ⟨-, filled, entered, -⟩
    · simp [lenient] at strict
    · rw [List.map_cons, follow, andThen_of_ok (by rw [entered])]
      exact ih _

theorem collisionFree_nil (before : Inventory) : CollisionFree before [] := by
  intro earlier construct later split
  simp at split

theorem collisionFree_snoc (free : CollisionFree before constructs)
    (last : ¬ Collides before constructs construct) :
    CollisionFree before (constructs ++ [construct]) := by
  intro earlier other later split collides
  rcases List.eq_nil_or_concat later with rfl | ⟨between, final, rfl⟩
  · obtain ⟨rfl, same⟩ := List.append_inj' split rfl
    cases same
    exact last collides
  · rw [List.concat_eq_append, ← List.cons_append, ← List.append_assoc] at split
    exact free earlier other between (List.append_inj' split rfl).1 collides

theorem collisionFree_of_append {later : List Construct}
    (free : CollisionFree before (earlier ++ later)) : CollisionFree before earlier := by
  intro first construct rest split
  exact free first construct (rest ++ later) (by simp [split])

theorem collisionFree_or_first (before : Inventory) (constructs : List Construct) :
    CollisionFree before constructs ∨
      ∃ earlier construct, FirstCollision before constructs earlier construct := by
  induction constructs using List.reverseRecOn with
  | nil => exact .inl (collisionFree_nil before)
  | append_singleton constructs last ih =>
    rcases ih with free | ⟨earlier, construct, collision⟩
    · by_cases collides : Collides before constructs last
      · exact .inr ⟨constructs, last, ⟨[], rfl⟩, collides, free⟩
      · exact .inl (collisionFree_snoc free collides)
    · obtain ⟨later, split⟩ := collision.split
      have longer : constructs ++ [last] = earlier ++ construct :: (later ++ [last]) := by
        simp [split]
      exact .inr ⟨earlier, construct, ⟨_, longer⟩, collision.collides, collision.free⟩

theorem done_of_collisionFree (rules : WalkRules) (free : CollisionFree before constructs) :
    (follow rules before (constructs.map .construct)).halt = none := by
  -- From the end: the last construct meets the inventory that the others have filled.
  induction constructs using List.reverseRecOn with
  | nil => rfl
  | append_singleton constructs last ih =>
    have done := ih (collisionFree_of_append free)
    obtain ⟨filled, -⟩ := recorded_of_done done
    rw [List.map_append, List.map_singleton, follow_append, andThen_of_ok done, follow]
    rcases take_cases rules (follow rules before (constructs.map .construct)).inventory last with
      ⟨-, taken, -⟩ | ⟨-, next, entered, -⟩
    · have collides := (taken_iff_collides filled last).mp taken
      exact absurd collides (free constructs last [] rfl)
    · rw [andThen_of_ok (by rw [entered])]
      rfl

theorem refused_of_first (strict : rules.policy = .error)
    (collision : FirstCollision before constructs earlier construct) :
    (follow rules before (constructs.map .construct)).halt =
        some (.fault (.nameCollision construct.category construct.entryName)) ∧
      FilledBy before (follow rules before (constructs.map .construct)).inventory earlier := by
  obtain ⟨later, split⟩ := collision.split
  have done := done_of_collisionFree rules collision.free
  obtain ⟨filled, -⟩ := recorded_of_done done
  have taken := (taken_iff_collides filled construct).mpr collision.collides
  rcases take_cases rules (follow rules before (earlier.map .construct)).inventory construct with
    ⟨-, -, refused⟩ | ⟨free, -⟩
  · rw [split, List.map_append, follow_append, andThen_of_ok done, List.map_cons, follow,
      andThen_of_halt (by rw [refused])]
    simpa [refused] using filled
  · simp [free strict] at taken

end Walk

end CodeInventory
