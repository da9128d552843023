import Mathlib.Data.List.Sort
import CodeInventory.Proofs.GapSweep

set_option autoImplicit false

namespace CodeInventory

structure MaximalRun (free : Nat → Prop) (run : Nat × Nat) : Prop where
  nonempty : run.1 ≤ run.2
  inside : ∀ line, Contains run line → free line
  widest : ∀ wider : Nat × Nat, wider.1 ≤ run.1 → run.2 ≤ wider.2 →
    (∀ line, Contains wider line → free line) → wider = run

namespace MaximalRun

variable {free : Nat → Prop} {left right run : Nat × Nat} {line : Nat}

-- Runs that share a line make one run together, so neither of them ends before the other.
theorem eq_of_meet (first : MaximalRun free left) (second : MaximalRun free right)
    (inLeft : Contains left line) (inRight : Contains right line) : left = right := by
  let joined := (min left.1 right.1, max left.2 right.2)
  have joinedFree : ∀ line, Contains joined line → free line := by
    intro line within
    by_cases here : Contains left line
    · exact first.inside line here
    · refine second.inside line ?_
      simp only [Contains, joined] at here within inLeft inRight ⊢
      omega
  calc
    left = joined :=
      (first.widest joined (Nat.min_le_left _ _) (Nat.le_max_left _ _) joinedFree).symm
    joined = right :=
      second.widest joined (Nat.min_le_right _ _) (Nat.le_max_right _ _) joinedFree

theorem of_bounded (nonempty : run.1 ≤ run.2) (inside : ∀ line, Contains run line → free line)
    (before : 1 ≤ run.1 → ¬ free (run.1 - 1)) (after : ¬ free (run.2 + 1)) :
    MaximalRun free run := by
  refine ⟨nonempty, inside, ?_⟩
  intro wider starts ends widerFree
  have noEarlier : ¬ wider.1 < run.1 := by
    intro earlier
    refine before (by omega) (widerFree _ ?_)
    simp only [Contains]
    omega
  have noLater : ¬ run.2 < wider.2 := by
    intro later
    refine after (widerFree _ ?_)
    simp only [Contains]
    omega
  exact Prod.ext (by omega) (by omega)

end MaximalRun

namespace Gap

variable {source : String} {ranges others : List (Nat × Nat)} {gap : Gap}

def Uncovered (ranges : List (Nat × Nat)) (lineCount line : Nat) : Prop :=
  (1 ≤ line ∧ line ≤ lineCount) ∧ ∀ range ∈ ranges, ¬ Contains range line

theorem separated_of_ne {left right : Gap} (upright : ∀ range ∈ ranges, range.1 ≤ range.2)
    (inLeft : left ∈ find ranges source true) (inRight : right ∈ find ranges source true)
    (different : left ≠ right) :
    left.endLine + 1 < right.startLine ∨ right.endLine + 1 < left.startLine := by
  let Separated (left right : Gap) :=
    left.endLine + 1 < right.startLine ∨ right.endLine + 1 < left.startLine
  have symmetric : Std.Symm Separated := ⟨fun _ _ => Or.symm⟩
  have separated : (find ranges source true).Pairwise Separated :=
    (find_separated upright source true).imp fun before => .inl before
  exact separated.forall inLeft inRight different

-- A free line beside a gap would stand in a gap too, and gaps have a line between them.
theorem not_uncovered_beside (upright : ∀ range ∈ ranges, range.1 ≤ range.2)
    (member : gap ∈ find ranges source true) {line : Nat}
    (beside : line + 1 = gap.startLine ∨ line = gap.endLine + 1) :
    ¬ Uncovered ranges (Text.lines source.toList).length line := by
  intro uncovered
  have nonempty := (bounds_of_mem_find member).2.1
  obtain ⟨neighbour, found, within⟩ := (exists_gap_iff ranges source line).mpr uncovered
  simp only [Contains, range] at within
  have different : gap ≠ neighbour := by
    rintro rfl
    omega
  rcases separated_of_ne upright member found different with later | earlier <;> omega

theorem maximalRun_of_mem_find (upright : ∀ range ∈ ranges, range.1 ≤ range.2)
    (member : gap ∈ find ranges source true) :
    MaximalRun (Uncovered ranges (Text.lines source.toList).length) gap.range := by
  refine .of_bounded (bounds_of_mem_find member).2.1 ?_ ?_ ?_
  · exact fun line within => (exists_gap_iff ranges source line).mp ⟨gap, member, within⟩
  · exact fun positive => not_uncovered_beside upright member (.inl (Nat.sub_add_cancel positive))
  · exact not_uncovered_beside upright member (.inr rfl)

theorem mem_find_iff_maximalRun (upright : ∀ range ∈ ranges, range.1 ≤ range.2) :
    gap ∈ find ranges source true ↔
      MaximalRun (Uncovered ranges (Text.lines source.toList).length) gap.range ∧
        gap.text = textOf (Text.lines source.toList) gap.startLine gap.endLine := by
  constructor
  · exact fun member => ⟨maximalRun_of_mem_find upright member, text_of_mem_find member⟩
  · rintro ⟨run, text⟩
    have first : Contains gap.range gap.startLine := ⟨Nat.le_refl _, run.nonempty⟩
    obtain ⟨found, member, within⟩ :=
      (exists_gap_iff ranges source gap.startLine).mpr (run.inside _ first)
    have same := run.eq_of_meet (maximalRun_of_mem_find upright member) first within
    obtain ⟨starts, ends⟩ : gap.startLine = found.startLine ∧ gap.endLine = found.endLine :=
      Prod.ext_iff.mp same
    have texts : gap.text = found.text := by
      rw [text, text_of_mem_find member, starts, ends]
    have whole : gap = found := by
      cases gap
      cases found
      simp_all only
    exact whole ▸ member

theorem find_in_order (upright : ∀ range ∈ ranges, range.1 ≤ range.2) (source : String) :
    (find ranges source true).Pairwise fun left right => left.startLine < right.startLine := by
  refine (find_separated upright source true).imp_of_mem ?_
  intro left right inLeft _ before
  have := (bounds_of_mem_find inLeft).2.1
  omega

theorem find_congr (upright : ∀ range ∈ ranges, range.1 ≤ range.2)
    (upright' : ∀ range ∈ others, range.1 ≤ range.2)
    (same : ∀ line, Uncovered ranges (Text.lines source.toList).length line ↔
      Uncovered others (Text.lines source.toList).length line) (keepBlank : Bool) :
    find ranges source keepBlank = find others source keepBlank := by
  have irreflexive : Std.Irrefl fun left right : Gap => left.startLine < right.startLine :=
    ⟨fun gap => Nat.lt_irrefl gap.startLine⟩
  have antisymmetric : Std.Antisymm fun left right : Gap => left.startLine < right.startLine :=
    ⟨fun _ _ before after => absurd before (Nat.lt_asymm after)⟩
  -- Gaps in the order of their starts are known by which of them there are.
  have kept : find ranges source true = find others source true := by
    apply (find_in_order upright source).eq_of_mem_iff (find_in_order upright' source)
    intro gap
    rw [mem_find_iff_maximalRun upright, mem_find_iff_maximalRun upright', funext_iff.mpr
      fun line => propext (same line)]
  rw [find_eq_filter, kept, ← find_eq_filter]

/-- The gaps are the longest runs of lines that no range contains, in ascending order, and between
each two of them stands a line that some range contains. Ranges that cover the same lines of a
source leave the same gaps in it. -/
theorem gaps_are_maximal_runs (ranges : List (Nat × Nat)) (source : String)
    (upright : ∀ range ∈ ranges, range.1 ≤ range.2) :
    let lines := Text.lines source.toList
    let gaps := find ranges source true
    (∀ gap, gap ∈ gaps ↔
        MaximalRun (Uncovered ranges lines.length) (gap.startLine, gap.endLine) ∧
          gap.text = textOf lines gap.startLine gap.endLine) ∧
      gaps.Pairwise (fun earlier later => ∃ line, earlier.endLine < line ∧ line < later.startLine ∧
        ∃ range ∈ ranges, Contains range line) ∧
      ∀ others : List (Nat × Nat), (∀ range ∈ others, range.1 ≤ range.2) →
        (∀ line, 1 ≤ line → line ≤ lines.length →
          ((∃ range ∈ ranges, Contains range line) ↔ ∃ range ∈ others, Contains range line)) →
        ∀ keepBlank, find others source keepBlank = find ranges source keepBlank := by
  intro lines gaps
  refine ⟨fun gap => mem_find_iff_maximalRun upright, ?_, ?_⟩
  · refine (find_separated upright source true).imp_of_mem ?_
    intro earlier later inEarlier inLater before
    -- The line after the earlier gap is no last line, since the later gap follows.
    have inside := bounds_of_mem_find inLater
    refine ⟨earlier.endLine + 1, Nat.lt_succ_self _, before, ?_⟩
    by_contra free
    refine not_uncovered_beside upright inEarlier (.inr rfl) ⟨by omega, ?_⟩
    exact fun range member contains => free ⟨range, member, contains⟩
  · intro others upright' same keepBlank
    refine find_congr upright' upright (fun line => and_congr_right fun bounds => ?_) keepBlank
    simpa using not_congr (same line bounds.1 bounds.2).symm

-- Out of order, over one another, twice and past the end; `gathered` covers the same lines.
def scattered : List (Nat × Nat) :=
  [(9, 40), (2, 3), (5, 5), (3, 4), (2, 3)]

def gathered : List (Nat × Nat) :=
  [(2, 5), (9, 9)]

def nineLines : String :=
  "a\nb\nc\nd\ne\nf\n\ng\nh"

theorem gaps_are_maximal_runs_scattered :
    (∀ range ∈ scattered, range.1 ≤ range.2) ∧ MaximalRun (Uncovered scattered 9) (6, 8) ∧
      find gathered nineLines false = find scattered nineLines false := by
  have upright : ∀ range ∈ scattered, range.1 ≤ range.2 := by decide
  obtain ⟨runs, -, sameGaps⟩ := gaps_are_maximal_runs scattered nineLines upright
  have lines : (Text.lines nineLines.toList).length = 9 := by decide +kernel
  rw [lines] at runs sameGaps
  refine ⟨upright, ((runs ⟨6, 8, "f\n\ng"⟩).mp (by decide +kernel)).1, ?_⟩
  refine sameGaps gathered (by decide) (fun line positive inside => ?_) false
  simp only [scattered, gathered, Contains, List.mem_cons, List.not_mem_nil, or_false,
    exists_eq_or_imp, exists_eq_left]
  omega

end Gap

end CodeInventory
