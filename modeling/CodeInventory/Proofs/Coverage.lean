import Mathlib.Algebra.BigOperators.Group.Finset.Piecewise
import Mathlib.Algebra.GroupWithZero.Nat
import Mathlib.Algebra.Order.BigOperators.Group.Finset
import Mathlib.Order.Interval.Finset.Nat
import CodeInventory.Proofs.LineAccounting
import CodeInventory.Proofs.LooseText

set_option autoImplicit false

namespace CodeInventory

variable {ranges : List (Nat × Nat)} {source : String} {line : Nat}

def depthAt (ranges : List (Nat × Nat)) (line : Nat) : Nat :=
  ranges.countP fun range => Contains range line

def coverage (ranges : List (Nat × Nat)) : Finset Nat :=
  ranges.toFinset.biUnion fun range => Finset.Icc range.1 range.2

def PairwiseDisjoint (ranges : List (Nat × Nat)) : Prop :=
  ranges.Pairwise fun left right => ∀ line, ¬ (Contains left line ∧ Contains right line)

theorem mem_coverage : line ∈ coverage ranges ↔ ∃ range ∈ ranges, Contains range line := by
  simp [coverage, Contains]

theorem depthAt_pos : 0 < depthAt ranges line ↔ line ∈ coverage ranges := by
  simp [depthAt, List.countP_pos_iff, mem_coverage]

theorem depthAt_cons (range : Nat × Nat) (rest : List (Nat × Nat)) (line : Nat) :
    depthAt (range :: rest) line = depthAt rest line + if Contains range line then 1 else 0 := by
  simp [depthAt, List.countP_cons]

theorem depthAt_cons_le_one_iff (range : Nat × Nat) (rest : List (Nat × Nat)) (line : Nat) :
    depthAt (range :: rest) line ≤ 1 ↔
      (∀ other ∈ rest, ¬ (Contains range line ∧ Contains other line)) ∧ depthAt rest line ≤ 1 := by
  rw [depthAt_cons]
  by_cases here : Contains range line
  · have none : depthAt rest line = 0 ↔ ∀ other ∈ rest, ¬ Contains other line := by
      simp [depthAt, List.countP_eq_zero]
    simp only [here, if_true, true_and, ← none]
    omega
  · simp [here]

theorem depthAt_le_one_iff : (∀ line, depthAt ranges line ≤ 1) ↔ PairwiseDisjoint ranges := by
  induction ranges with
  | nil => simp [depthAt, PairwiseDisjoint]
  | cons range rest ih =>
    rw [PairwiseDisjoint, List.pairwise_cons, ← PairwiseDisjoint, ← ih]
    simp only [depthAt_cons_le_one_iff]
    constructor
    · intro every
      exact ⟨fun other member line => (every line).1 other member, fun line => (every line).2⟩
    · rintro ⟨apart, further⟩ line
      exact ⟨fun other member => apart other member line, further line⟩

theorem sum_contains {range : Nat × Nat} (upright : range.1 ≤ range.2) {lines : Finset Nat}
    (all : ∀ line, Contains range line → line ∈ lines) :
    (∑ line ∈ lines, if Contains range line then 1 else 0) = range.2 - range.1 + 1 := by
  have same : lines.filter (fun line => Contains range line) = Finset.Icc range.1 range.2 := by
    ext line
    rw [Finset.mem_filter, Finset.mem_Icc]
    exact ⟨And.right, fun inside => ⟨all line inside, inside⟩⟩
  rw [← Finset.card_filter, same, Nat.card_Icc]
  omega

theorem sum_depthAt (upright : ∀ range ∈ ranges, range.1 ≤ range.2) {lines : Finset Nat}
    (all : ∀ range ∈ ranges, ∀ line, Contains range line → line ∈ lines) :
    ∑ line ∈ lines, depthAt ranges line = (ranges.map fun range => range.2 - range.1 + 1).sum := by
  induction ranges with
  | nil => simp [depthAt]
  | cons range rest ih =>
    obtain ⟨first, others⟩ := List.forall_mem_cons.mp upright
    obtain ⟨here, further⟩ := List.forall_mem_cons.mp all
    simp only [depthAt_cons]
    rw [Finset.sum_add_distrib, ih others further, sum_contains first here, List.map_cons,
      List.sum_cons, Nat.add_comm]

theorem card_coverage_le (ranges : List (Nat × Nat)) :
    (coverage ranges).card ≤ ∑ line ∈ coverage ranges, depthAt ranges line := by
  rw [Finset.card_eq_sum_ones]
  exact Finset.sum_le_sum fun line member => depthAt_pos.mpr member

theorem card_coverage_eq_iff (ranges : List (Nat × Nat)) :
    (coverage ranges).card = ∑ line ∈ coverage ranges, depthAt ranges line ↔
      PairwiseDisjoint ranges := by
  rw [Finset.card_eq_sum_ones,
    Finset.sum_eq_sum_iff_of_le fun line member => depthAt_pos.mpr member, ← depthAt_le_one_iff]
  constructor
  · intro single line
    by_cases member : line ∈ coverage ranges
    · exact Nat.le_of_eq (single line member).symm
    · have := mt depthAt_pos.mp member
      omega
  · intro single line member
    exact Nat.le_antisymm (depthAt_pos.mpr member) (single line)

namespace Gap

theorem sum_lengths (upright : ∀ range ∈ ranges, range.1 ≤ range.2) (source : String) :
    ((find ranges source true).map fun gap => gap.endLine - gap.startLine + 1).sum =
      ((List.range' 1 (Text.lines source.toList).length).filter fun line =>
        ∀ range ∈ ranges, ¬ Contains range line).length := by
  rw [← flatMap_lineNumbers upright, List.length_flatMap]
  congr 1
  apply List.map_congr_left
  intro gap member
  have := (bounds_of_mem_find member).2.1
  rw [lineNumbers, List.length_range']
  omega

theorem card_coverage_add (upright : ∀ range ∈ ranges, range.1 ≤ range.2)
    (inside : ∀ range ∈ ranges, 1 ≤ range.1 ∧ range.2 ≤ (Text.lines source.toList).length) :
    (coverage ranges).card +
        ((find ranges source true).map fun gap => gap.endLine - gap.startLine + 1).sum =
      (Text.lines source.toList).length := by
  have covered : (coverage ranges).card =
      ((List.range' 1 (Text.lines source.toList).length).filter fun line =>
        !decide (∀ range ∈ ranges, ¬ Contains range line)).length := by
    rw [← List.toFinset_card_of_nodup ((List.nodup_range' 1).filter _)]
    congr 1
    ext line
    have within (range : Nat × Nat) (member : range ∈ ranges) (contains : Contains range line) :
        1 ≤ line ∧ line < 1 + (Text.lines source.toList).length := by
      have := inside range member
      simp only [Contains] at contains
      omega
    simp only [mem_coverage, List.mem_toFinset, List.mem_filter, List.mem_range'_1]
    grind
  rw [covered, sum_lengths upright, Nat.add_comm, ← List.length_eq_length_filter_add,
    List.length_range']

end Gap

namespace Inventory

theorem length_lineRanges (inventory : Inventory) :
    inventory.lineRanges.length = inventory.chunkCount := by
  have listed : inventory.chunkCount = inventory.imports.length +
      (inventory.globalVariables.length + (inventory.typeDefinitions.length +
        (inventory.functions.size + (inventory.asyncFunctions.size + (inventory.classes.size +
          (inventory.hooks.size + (inventory.components.size + inventory.jsxElements.length))))))) :=
    rfl
  rw [listed, lineRanges, List.length_map, chunks]
  simp only [rosters, List.flatMap_cons, List.flatMap_nil, List.length_append, List.length_map,
    List.length_nil, Roster.chunks, Roster.size]
  omega

theorem count_tally (inventory : Inventory) (category : Category) :
    inventory.tally.count category = inventory.count category := by
  cases category <;> rfl

theorem sum_count_tally (inventory : Inventory) :
    (Category.all.map inventory.tally.count).sum =
      inventory.chunkCount + inventory.otherBlocks.length := by
  simp [Category.all, count_tally, chunkCount, total, count, Nat.add_assoc]

theorem isEmpty_iff (inventory : Inventory) :
    inventory.isEmpty ↔ (Category.all.map inventory.tally.count).sum = 0 := by
  simp [isEmpty, List.sum_eq_zero_iff, count_tally]

theorem coveredLines_tally (inventory : Inventory) :
    inventory.tally.coveredLines =
      (inventory.lineRanges.map fun range => range.2 - range.1 + 1).sum := by
  rw [lineRanges, List.map_map]
  rfl

/-- There are as many line ranges as chunks, and the tally counts these and the loose text. It counts
a covered line once for every chunk that has it, so that covered lines and gaps come to the lines of
the source just when no two chunks share a line, and to more otherwise. -/
theorem tally_agrees_with_chunks_and_gaps (inventory : Inventory) (source : String) :
    let ranges := inventory.lineRanges
    let tally := inventory.tally
    let lineCount := (Text.lines source.toList).length
    let gapLines :=
      ((Gap.find ranges source true).map fun gap => gap.endLine - gap.startLine + 1).sum
    ranges.length = inventory.chunkCount ∧
      (Category.all.map tally.count).sum = inventory.chunkCount + inventory.otherBlocks.length ∧
      (inventory.isEmpty ↔ (Category.all.map tally.count).sum = 0) ∧
      ((∀ chunk ∈ inventory.chunks, chunk.startLine ≤ chunk.endLine) →
        (∀ lines : Finset Nat, coverage ranges ⊆ lines →
            tally.coveredLines = ∑ line ∈ lines, depthAt ranges line) ∧
          (coverage ranges).card ≤ tally.coveredLines ∧
          ((coverage ranges).card = tally.coveredLines ↔ PairwiseDisjoint ranges) ∧
          ((∀ range ∈ ranges, 1 ≤ range.1 ∧ range.2 ≤ lineCount) →
            lineCount ≤ tally.coveredLines + gapLines ∧
              (lineCount = tally.coveredLines + gapLines ↔ PairwiseDisjoint ranges))) := by
  intro ranges tally lineCount gapLines
  refine ⟨length_lineRanges inventory, sum_count_tally inventory, isEmpty_iff inventory, ?_⟩
  intro ordered
  have upright : ∀ range ∈ ranges, range.1 ≤ range.2 := upright_lineRanges ordered
  have summed (lines : Finset Nat) (all : coverage ranges ⊆ lines) :
      tally.coveredLines = ∑ line ∈ lines, depthAt ranges line := by
    rw [sum_depthAt upright fun range member line inside =>
      all (mem_coverage.mpr ⟨range, member, inside⟩)]
    exact coveredLines_tally inventory
  have whole := summed (coverage ranges) (Finset.Subset.refl _)
  have least : (coverage ranges).card ≤ tally.coveredLines := whole ▸ card_coverage_le ranges
  have once : (coverage ranges).card = tally.coveredLines ↔ PairwiseDisjoint ranges :=
    whole ▸ card_coverage_eq_iff ranges
  refine ⟨summed, least, once, ?_⟩
  intro inside
  have shared : (coverage ranges).card + gapLines = lineCount :=
    Gap.card_coverage_add upright inside
  refine ⟨by omega, ?_⟩
  rw [← once]
  omega

def overlappingSource : String :=
  "use a;\n\nfn f() \x7b\n\x7d fn g() \x7b\x7d\nstatic"

def overlapping : Inventory :=
  { Inventory.empty with
    imports := [⟨"use a;", 1, 1⟩]
    functions :=
      (Roster.empty.insert "f" ⟨"fn f() \x7b\n\x7d", 3, 4⟩).insert "g" ⟨"fn g() \x7b\x7d", 4, 4⟩
    otherBlocks := ["static"] }

theorem tally_agrees_with_chunks_and_gaps_overlapping :
    (∀ chunk ∈ overlapping.chunks, chunk.startLine ≤ chunk.endLine) ∧
      (∀ range ∈ overlapping.lineRanges, 1 ≤ range.1 ∧ range.2 ≤ 5) ∧
      (coverage overlapping.lineRanges).card = 3 ∧ overlapping.tally.coveredLines = 4 ∧
      ¬ PairwiseDisjoint overlapping.lineRanges ∧
      5 ≠ 4 + ((Gap.find overlapping.lineRanges overlappingSource true).map fun gap =>
        gap.endLine - gap.startLine + 1).sum := by
  have ordered : ∀ chunk ∈ overlapping.chunks, chunk.startLine ≤ chunk.endLine := by decide
  have inside : ∀ range ∈ overlapping.lineRanges, 1 ≤ range.1 ∧ range.2 ≤ 5 := by decide
  have lines : (Text.lines overlappingSource.toList).length = 5 := by decide +kernel
  have distinct : (coverage overlapping.lineRanges).card = 3 := by decide
  have counted : overlapping.tally.coveredLines = 4 := by decide
  obtain ⟨-, -, -, covered⟩ := tally_agrees_with_chunks_and_gaps overlapping overlappingSource
  obtain ⟨-, -, once, whole⟩ := covered ordered
  rw [lines, counted] at whole
  rw [distinct, counted] at once
  have apart : ¬ PairwiseDisjoint overlapping.lineRanges := fun disjoint =>
    absurd (once.mpr disjoint) (by decide)
  exact ⟨ordered, inside, distinct, counted, apart, mt (whole inside).2.mp apart⟩

end Inventory

end CodeInventory
