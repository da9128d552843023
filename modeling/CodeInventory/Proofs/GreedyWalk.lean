import Mathlib.Data.Nat.Find
import CodeInventory.Proofs.Exposure

set_option autoImplicit false

namespace CodeInventory.Walk

open Inventory

variable {rules : WalkRules} {before : Inventory} {tree : SyntaxTree} {address : Address}

theorem recorded_and_free (done : (walk rules before tree).halt = none) :
    (follow rules before ((reached rules tree).map .construct)).halt = none ∧
      halt? rules tree = none := by
  rw [walk_eq_record_reached] at done
  exact andThen_done done

theorem reached_of_free (free : halt? rules tree = none) :
    reached rules tree = constructsAt rules tree (topmost rules tree) := by
  rw [reached, beforeHalt_of_free free, topmost]

theorem filledBy_of_done (done : (walk rules before tree).halt = none) :
    FilledBy before (walk rules before tree).inventory
      (constructsAt rules tree (topmost rules tree)) := by
  obtain ⟨recorded, free⟩ := recorded_and_free done
  rw [← reached_of_free free]
  exact (walk_of_recorded recorded).2.1

theorem topmost_apart (rules : WalkRules) (tree : SyntaxTree) :
    (topmost rules tree).Pairwise fun left right => ¬ left <+: right ∧ ¬ right <+: left := by
  have notAbove {upper lower : Address} (upperTop : upper ∈ topmost rules tree)
      (lowerTop : lower ∈ topmost rules tree) (different : upper ≠ lower) : ¬ upper <+: lower := by
    rintro ⟨below, rfl⟩
    have deeper : below ≠ [] := by
      rintro rfl
      simp at different
    simp only [topmost, List.mem_filter, decide_eq_true_eq] at upperTop lowerTop
    have unmatched := exposed_append lowerTop.2.2 deeper
    simp [unmatched, Topmost] at upperTop
  -- The listing names no node twice, so two of its nodes always differ.
  have ascending := (SyntaxTree.addresses_ascending tree).filter fun address =>
    decide (Topmost rules tree address)
  refine ascending.imp_of_mem ?_
  intro left right leftTop rightTop before
  have different : left ≠ right := by
    rintro rfl
    exact List.lt_irrefl left before
  exact ⟨notAbove leftTop rightTop different, notAbove rightTop leftTop different.symm⟩

theorem exists_topmost_above (matched : (constructAt? rules tree address).isSome) :
    ∃ top ∈ topmost rules tree, top <+: address := by
  classical
  have whole : ∃ height, (constructAt? rules tree (address.take height)).isSome :=
    ⟨address.length, by simpa using matched⟩
  -- The shortest way down to a construct meets no construct before.
  let top := address.take (Nat.find whole)
  have path : top <+: address := List.take_prefix _ _
  have topMatched : (constructAt? rules tree top).isSome := Nat.find_spec whole
  have exposed : Exposed rules tree top := by
    intro height above
    have lower : height < Nat.find whole :=
      Nat.lt_of_lt_of_le above (List.length_take_le _ _)
    have higher := Nat.find_min whole lower
    rw [List.take_take, Nat.min_eq_left (Nat.le_of_lt lower)]
    simpa using higher
  have inside : top ∈ tree.addresses := by
    obtain ⟨construct, matched⟩ := Option.isSome_iff_exists.mp topMatched
    obtain ⟨node, found, -⟩ := constructAt?_eq_some_iff.mp matched
    rw [SyntaxTree.mem_addresses, found, Option.isSome_some]
  exact ⟨top, by simp [topmost, inside, Topmost, topMatched, exposed], path⟩

/-- A finished walk has recorded the topmost constructs and nothing else. These lie apart from each
other, and every construct is one of them or lies inside one. -/
theorem finished_walk_records_topmost (rules : WalkRules) (before : Inventory) (tree : SyntaxTree)
    (done : (walk rules before tree).halt = none) :
    (topmost rules tree).Pairwise (fun left right => ¬ left <+: right ∧ ¬ right <+: left) ∧
      (∀ address, (constructAt? rules tree address).isSome →
        address ∈ topmost rules tree ∨
          ∃ top ∈ topmost rules tree, top <+: address ∧ top ≠ address) ∧
      FilledBy before (walk rules before tree).inventory
        (constructsAt rules tree (topmost rules tree)) := by
  refine ⟨topmost_apart rules tree, ?_, filledBy_of_done done⟩
  intro address matched
  obtain ⟨top, member, path⟩ := exists_topmost_above matched
  by_cases same : top = address
  · exact .inl (same ▸ member)
  · exact .inr ⟨top, member, path, same⟩

def twinSource : String :=
  "fn f() {}\nfn f() { fn g() {} }\n"

def twins : SyntaxTree :=
  .node ⟨"source_file", none, true, ⟨0, 31, 0, 0, 2, 0⟩⟩
    [.node ⟨"function_item", none, true, ⟨0, 9, 0, 0, 0, 9⟩⟩
        [.node ⟨"identifier", some "name", true, ⟨3, 4, 0, 3, 0, 4⟩⟩ []],
      .node ⟨"function_item", none, true, ⟨10, 30, 1, 0, 1, 20⟩⟩
        [.node ⟨"identifier", some "name", true, ⟨13, 14, 1, 3, 1, 4⟩⟩ [],
          .node ⟨"block", some "body", true, ⟨17, 30, 1, 7, 1, 20⟩⟩
            [.node ⟨"function_item", none, true, ⟨19, 28, 1, 9, 1, 18⟩⟩
              [.node ⟨"identifier", some "name", true, ⟨22, 23, 1, 12, 1, 13⟩⟩ []]]]]

def twinRules : WalkRules :=
  ⟨.rust, twinSource.toUTF8, .overwrite, 4⟩

def firstTwin : Construct :=
  ⟨.functionLike, some "f", ⟨"fn f() {}", 1, 1⟩⟩

def secondTwin : Construct :=
  ⟨.functionLike, some "f", ⟨"fn f() { fn g() {} }", 2, 2⟩⟩

theorem finished_walk_records_topmost_twins :
    (walk twinRules .empty twins).halt = none ∧ topmost twinRules twins = [[0], [1]] ∧
      (walk twinRules .empty twins).inventory.chunkUnder? .functions "f" =
        some secondTwin.chunk := by
  have done : (walk twinRules .empty twins).halt = none := by
    rw [walk_eq_follow]
    decide +kernel
  have tops : topmost twinRules twins = [[0], [1]] := by decide +kernel
  have recorded : constructsAt twinRules twins [[0], [1]] = [firstTwin, secondTwin] := by
    decide +kernel
  obtain ⟨-, -, filled⟩ := finished_walk_records_topmost twinRules .empty twins done
  refine ⟨done, tops, ?_⟩
  rw [filled.entries .functions (by decide), tops, recorded]
  decide

end CodeInventory.Walk
