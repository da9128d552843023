import Mathlib.Data.List.Pairwise
import CodeInventory.Gap

set_option autoImplicit false

namespace CodeInventory

-- A range of lines includes its ends; one that ends before it starts contains no line.
def Contains (range : Nat × Nat) (line : Nat) : Prop :=
  range.1 ≤ line ∧ line ≤ range.2

instance (range : Nat × Nat) : DecidablePred (Contains range) :=
  fun _ => inferInstanceAs (Decidable (_ ∧ _))

namespace Gap

variable {source : String} {ranges : List (Nat × Nat)} {lineCount covered line : Nat}

def range (gap : Gap) : Nat × Nat :=
  (gap.startLine, gap.endLine)

theorem insertRange_perm (range : Nat × Nat) (ranges : List (Nat × Nat)) :
    (insertRange range ranges).Perm (range :: ranges) := by
  induction ranges with
  | nil => simp [insertRange]
  | cons other rest ih =>
    by_cases first : rangeBefore range other
    · simp [insertRange, first]
    · have swapped := (ih.cons other).trans (List.Perm.swap range other rest)
      simpa [insertRange, first] using swapped

theorem sortRanges_perm (ranges : List (Nat × Nat)) : (sortRanges ranges).Perm ranges := by
  induction ranges with
  | nil => simp [sortRanges]
  | cons range rest ih => exact (insertRange_perm range _).trans (ih.cons range)

theorem rangeBefore_total (left right : Nat × Nat) :
    rangeBefore left right ∨ rangeBefore right left := by
  simp only [rangeBefore, Bool.or_eq_true, Bool.and_eq_true, decide_eq_true_eq, beq_iff_eq]
  omega

theorem rangeBefore_trans {left middle right : Nat × Nat} (first : rangeBefore left middle)
    (second : rangeBefore middle right) : rangeBefore left right := by
  simp only [rangeBefore, Bool.or_eq_true, Bool.and_eq_true, decide_eq_true_eq, beq_iff_eq]
    at first second ⊢
  omega

theorem insertRange_sorted (range : Nat × Nat)
    (sorted : ranges.Pairwise fun left right => rangeBefore left right) :
    (insertRange range ranges).Pairwise fun left right => rangeBefore left right := by
  induction ranges with
  | nil => simp [insertRange]
  | cons other rest ih =>
    obtain ⟨lowest, tail⟩ := List.pairwise_cons.mp sorted
    by_cases first : rangeBefore range other
    · rw [insertRange, if_pos first]
      refine List.pairwise_cons.mpr ⟨?_, sorted⟩
      intro later member
      rcases List.mem_cons.mp member with rfl | inRest
      · exact first
      · exact rangeBefore_trans first (lowest later inRest)
    · rw [insertRange, if_neg first]
      refine List.pairwise_cons.mpr ⟨?_, ih tail⟩
      intro later member
      rcases List.mem_cons.mp ((insertRange_perm range rest).mem_iff.mp member) with rfl | inRest
      · exact (rangeBefore_total other later).resolve_right first
      · exact lowest later inRest

theorem sortRanges_sorted (ranges : List (Nat × Nat)) :
    (sortRanges ranges).Pairwise fun left right => rangeBefore left right := by
  induction ranges with
  | nil => simp [sortRanges]
  | cons range rest ih => exact insertRange_sorted range ih

theorem start_le_of_rangeBefore {left right : Nat × Nat} (first : rangeBefore left right) :
    left.1 ≤ right.1 := by
  simp only [rangeBefore, Bool.or_eq_true, Bool.and_eq_true, decide_eq_true_eq, beq_iff_eq] at first
  omega

theorem sortRanges_starts (ranges : List (Nat × Nat)) :
    (sortRanges ranges).Pairwise fun left right => left.1 ≤ right.1 :=
  (sortRanges_sorted ranges).imp start_le_of_rangeBefore

-- The ranges may be reversed: only their starts need be in order.
theorem exists_stretch_iff (starts : ranges.Pairwise fun left right => left.1 ≤ right.1)
    (inside : line ≤ lineCount) (covered : Nat) :
    (∃ stretch ∈ stretches lineCount covered ranges, Contains stretch line) ↔
      covered < line ∧ ∀ range ∈ ranges, ¬ Contains range line := by
  -- Of the ranges behind, the sweep remembers only the last line covered.
  induction ranges generalizing covered with
  | nil =>
    by_cases unfinished : covered < lineCount
    · have whole : Contains (covered + 1, lineCount) line ↔ covered < line := by
        simp only [Contains]
        omega
      simp [stretches, unfinished, whole]
    · have past : ¬ covered < line := by omega
      simp [stretches, unfinished, past]
  | cons range rest ih =>
    obtain ⟨first, last⟩ := range
    obtain ⟨lowest, tail⟩ := List.pairwise_cons.mp starts
    have further := ih tail (max covered last)
    -- Later ranges start no earlier, so they miss the lines before this one too.
    have lower (above : line < first) : ∀ range ∈ rest, ¬ Contains range line := by
      intro range member contains
      have := lowest range member
      have := contains.1
      omega
    have split :
        (∃ stretch ∈ stretches lineCount covered ((first, last) :: rest), Contains stretch line) ↔
          (covered < line ∧ line < first) ∨
            ∃ stretch ∈ stretches lineCount (max covered last) rest, Contains stretch line := by
      by_cases room : covered + 1 < first
      · have here : Contains (covered + 1, first - 1) line ↔ covered < line ∧ line < first := by
          simp only [Contains]
          omega
        simp [stretches, room, here]
      · rw [stretches, if_neg room]
        have closed : ¬ (covered < line ∧ line < first) := by omega
        simp [closed]
    rw [split, further, List.forall_mem_cons]
    constructor
    · rintro (⟨after, above⟩ | ⟨after, free⟩)
      · refine ⟨after, fun contains => ?_, lower above⟩
        have := contains.1
        omega
      · refine ⟨by omega, fun contains => ?_, free⟩
        have := contains.2
        omega
    · rintro ⟨after, outside, free⟩
      by_cases above : line < first
      · exact .inl ⟨after, above⟩
      · refine .inr ⟨?_, free⟩
        simp only [Contains] at outside
        omega

theorem covered_lt_of_mem_stretches {stretch : Nat × Nat}
    (member : stretch ∈ stretches lineCount covered ranges) : covered < stretch.1 := by
  induction ranges generalizing covered with
  | nil =>
    by_cases unfinished : covered < lineCount
    · simp only [stretches, unfinished, if_true, List.mem_singleton] at member
      simp [member]
    · simp [stretches, unfinished] at member
  | cons range rest ih =>
    obtain ⟨first, last⟩ := range
    have further (member : stretch ∈ stretches lineCount (max covered last) rest) :
        covered < stretch.1 := by
      have := ih member
      omega
    by_cases room : covered + 1 < first
    · rw [stretches, if_pos room] at member
      rcases List.mem_cons.mp member with rfl | later
      · exact Nat.lt_succ_self covered
      · exact further later
    · rw [stretches, if_neg room] at member
      exact further member

theorem stretches_separated (upright : ∀ range ∈ ranges, range.1 ≤ range.2)
    (lineCount covered : Nat) :
    (stretches lineCount covered ranges).Pairwise fun left right => left.2 + 1 < right.1 := by
  induction ranges generalizing covered with
  | nil =>
    by_cases unfinished : covered < lineCount <;> simp [stretches, unfinished]
  | cons range rest ih =>
    obtain ⟨first, last⟩ := range
    obtain ⟨ordered, others⟩ := List.forall_mem_cons.mp upright
    by_cases room : covered + 1 < first
    · rw [stretches, if_pos room]
      refine List.pairwise_cons.mpr ⟨?_, ih others _⟩
      intro later member
      -- The range itself lies between the stretch before it and those after it.
      have := covered_lt_of_mem_stretches member
      simp only at ordered ⊢
      omega
    · rw [stretches, if_neg room]
      exact ih others _

theorem find_eq_filter (ranges : List (Nat × Nat)) (source : String) (keepBlank : Bool) :
    find ranges source keepBlank =
      (find ranges source true).filter fun gap => keepBlank || gap.text ≠ "" := by
  simp [find]

theorem ofStretch?_eq_some_iff {lines : List (List Char)} {stretch : Nat × Nat} {gap : Gap} :
    ofStretch? lines stretch = some gap ↔
      stretch.1 ≤ min stretch.2 lines.length ∧
        gap = ⟨stretch.1, min stretch.2 lines.length,
          textOf lines stretch.1 (min stretch.2 lines.length)⟩ := by
  by_cases nonempty : stretch.1 ≤ min stretch.2 lines.length <;>
    simp [ofStretch?, nonempty, eq_comm]

theorem mem_find_iff (ranges : List (Nat × Nat)) (source : String) (gap : Gap) :
    gap ∈ find ranges source true ↔
      ∃ stretch ∈ stretches (Text.lines source.toList).length 0 (sortRanges ranges),
        ofStretch? (Text.lines source.toList) stretch = some gap := by
  simp [find]

theorem bounds_of_mem_find {gap : Gap} {keepBlank : Bool}
    (member : gap ∈ find ranges source keepBlank) :
    1 ≤ gap.startLine ∧ gap.startLine ≤ gap.endLine ∧
      gap.endLine ≤ (Text.lines source.toList).length := by
  rw [find_eq_filter] at member
  obtain ⟨stretch, swept, cut⟩ :=
    (mem_find_iff ranges source gap).mp ((List.mem_filter.mp member).1)
  obtain ⟨nonempty, rfl⟩ := ofStretch?_eq_some_iff.mp cut
  exact ⟨covered_lt_of_mem_stretches swept, nonempty, Nat.min_le_right _ _⟩

theorem text_of_mem_find {gap : Gap} (member : gap ∈ find ranges source true) :
    gap.text = textOf (Text.lines source.toList) gap.startLine gap.endLine := by
  obtain ⟨stretch, -, cut⟩ := (mem_find_iff ranges source gap).mp member
  obtain ⟨-, rfl⟩ := ofStretch?_eq_some_iff.mp cut
  rfl

theorem exists_gap_iff (ranges : List (Nat × Nat)) (source : String) (line : Nat) :
    (∃ gap ∈ find ranges source true, Contains gap.range line) ↔
      (1 ≤ line ∧ line ≤ (Text.lines source.toList).length) ∧
        ∀ range ∈ ranges, ¬ Contains range line := by
  have sweep (inside : line ≤ (Text.lines source.toList).length) :=
    exists_stretch_iff (sortRanges_starts ranges) inside 0
  simp only [(sortRanges_perm ranges).mem_iff] at sweep
  simp only [mem_find_iff, ofStretch?_eq_some_iff]
  constructor
  -- A stretch may reach past the source, its gap does not.
  · rintro ⟨gap, ⟨stretch, member, nonempty, rfl⟩, within⟩
    simp only [Contains, range] at within
    have inside : line ≤ (Text.lines source.toList).length := by omega
    obtain ⟨positive, free⟩ := (sweep inside).mp ⟨stretch, member, by simp only [Contains]; omega⟩
    exact ⟨⟨positive, inside⟩, free⟩
  · rintro ⟨⟨positive, inside⟩, free⟩
    obtain ⟨stretch, member, within⟩ := (sweep inside).mpr ⟨positive, free⟩
    simp only [Contains] at within
    refine ⟨_, ⟨stretch, member, by omega, rfl⟩, ?_⟩
    simp only [Contains, range]
    omega

theorem find_separated (upright : ∀ range ∈ ranges, range.1 ≤ range.2) (source : String)
    (keepBlank : Bool) :
    (find ranges source keepBlank).Pairwise fun left right => left.endLine + 1 < right.startLine := by
  have sorted : ∀ range ∈ sortRanges ranges, range.1 ≤ range.2 := by
    intro range member
    exact upright range ((sortRanges_perm ranges).mem_iff.mp member)
  have apart := stretches_separated sorted (Text.lines source.toList).length 0
  refine List.Pairwise.filter _ (List.Pairwise.filterMap _ ?_ apart)
  intro left right separated gap fromLeft later fromRight
  obtain ⟨-, rfl⟩ := ofStretch?_eq_some_iff.mp fromLeft
  obtain ⟨-, rfl⟩ := ofStretch?_eq_some_iff.mp fromRight
  simp only
  omega

theorem count_containing_le_one {gaps : List Gap}
    (apart : gaps.Pairwise fun left right => left.endLine < right.startLine) (line : Nat) :
    (gaps.countP fun gap => Contains gap.range line) ≤ 1 := by
  induction gaps with
  | nil => simp
  | cons gap rest ih =>
    obtain ⟨later, others⟩ := List.pairwise_cons.mp apart
    by_cases here : Contains gap.range line
    · have nowhere : (rest.countP fun gap => Contains gap.range line) = 0 := by
        simp only [List.countP_eq_zero, decide_eq_true_eq]
        intro other member there
        have := later other member
        simp only [Contains, range] at here there
        omega
      simp [here, nowhere]
    · simpa [here] using ih others

theorem covered_or_in_single_gap (upright : ∀ range ∈ ranges, range.1 ≤ range.2) (source : String)
    (positive : 1 ≤ line) (inside : line ≤ (Text.lines source.toList).length) :
    ((∃ range ∈ ranges, Contains range line) ∧
        ((find ranges source true).countP fun gap => Contains gap.range line) = 0) ∨
      ((∀ range ∈ ranges, ¬ Contains range line) ∧
        ((find ranges source true).countP fun gap => Contains gap.range line) = 1) := by
  have found := exists_gap_iff ranges source line
  have counted : 0 < ((find ranges source true).countP fun gap => Contains gap.range line) ↔
      ∀ range ∈ ranges, ¬ Contains range line := by
    rw [List.countP_pos_iff]
    simpa [positive, inside] using found
  have atMost : ((find ranges source true).countP fun gap => Contains gap.range line) ≤ 1 := by
    apply count_containing_le_one
    exact (find_separated upright source true).imp fun apart => by omega
  by_cases uncovered : ∀ range ∈ ranges, ¬ Contains range line
  · have := counted.mpr uncovered
    exact .inr ⟨uncovered, by omega⟩
  · have := mt counted.mp uncovered
    exact .inl ⟨by simpa using uncovered, by omega⟩

end Gap

end CodeInventory
