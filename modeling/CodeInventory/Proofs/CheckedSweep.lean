import Mathlib.Data.List.Basic
import CodeInventory.Json
import CodeInventory.Proofs.GapSweep

set_option autoImplicit false

namespace CodeInventory.Gap

variable {lines : List (List Char)} {keepBlank : Bool} {gaps : List Gap} {source : String}
  {ranges : List (Nat × Nat)} {covered first last : Nat}

def lineAfter? (line : Nat) : Option Nat :=
  if line + 1 < Json.wordLimit then some (line + 1) else none

def lineBefore? (line : Nat) : Option Nat :=
  if 1 ≤ line then some (line - 1) else none

def cut? (lines : List (List Char)) (start stop : Nat) : Option (List (List Char)) :=
  if start ≤ stop ∧ stop ≤ lines.length then some ((lines.take stop).drop start) else none

def push? (lines : List (List Char)) (keepBlank : Bool) (gaps : List Gap) (first last : Nat) :
    Option (List Gap) :=
  let last := min last lines.length
  if last < first then some gaps
  else do
    let piece ← cut? lines (← lineBefore? first) last
    let text := String.ofList (Text.trimChars (Text.joinLines piece))
    if text = "" ∧ ¬ keepBlank then some gaps else some (gaps ++ [⟨first, last, text⟩])

def sweep? (lines : List (List Char)) (keepBlank : Bool) :
    Nat → List Gap → List (Nat × Nat) → Option (List Gap)
  | covered, gaps, [] =>
      if covered < lines.length then do
        push? lines keepBlank gaps (← lineAfter? covered) lines.length
      else some gaps
  | covered, gaps, (first, last) :: rest => do
      let next ← lineAfter? covered
      let found ←
        if next < first then do push? lines keepBlank gaps next (← lineBefore? first)
        else some gaps
      sweep? lines keepBlank (max covered last) found rest

def findChecked? (ranges : List (Nat × Nat)) (source : String) (keepBlank : Bool) :
    Option (List Gap) :=
  sweep? (Text.lines source.toList) keepBlank 0 [] (sortRanges ranges)

def wanted (lines : List (List Char)) (keepBlank : Bool) (stretch : Nat × Nat) : List Gap :=
  (ofStretch? lines stretch).toList.filter fun gap => keepBlank || gap.text ≠ ""

theorem push?_eq_some (positive : 1 ≤ first) :
    push? lines keepBlank gaps first last =
      some (gaps ++ wanted lines keepBlank (first, last)) := by
  by_cases nothing : min last lines.length < first
  · have gap : ofStretch? lines (first, last) = none := if_neg (by omega)
    simp [push?, nothing, wanted, gap]
  · have nonempty : first ≤ min last lines.length := by omega
    have cut : cut? lines (first - 1) (min last lines.length) =
        some ((lines.take (min last lines.length)).drop (first - 1)) :=
      if_pos ⟨by omega, Nat.min_le_right _ _⟩
    have text : String.ofList (Text.trimChars (Text.joinLines
        ((lines.take (min last lines.length)).drop (first - 1)))) =
          textOf lines first (min last lines.length) :=
      rfl
    have gap : ofStretch? lines (first, last) =
        some ⟨first, min last lines.length, textOf lines first (min last lines.length)⟩ :=
      if_pos nonempty
    simp only [push?, if_neg nothing, lineBefore?, if_pos positive, cut, Option.bind_eq_bind,
      Option.bind_some, text, wanted, gap, Option.toList_some]
    by_cases blank : textOf lines first (min last lines.length) = "" <;>
      cases keepBlank <;> simp [blank]

theorem sweep?_cons {rest : List (Nat × Nat)} (small : covered + 1 < Json.wordLimit) :
    sweep? lines keepBlank covered gaps ((first, last) :: rest) =
      sweep? lines keepBlank (max covered last)
        (gaps ++
          if covered + 1 < first then wanted lines keepBlank (covered + 1, first - 1) else [])
        rest := by
  by_cases room : covered + 1 < first
  · have before : lineBefore? first = some (first - 1) := if_pos (by omega)
    simp [sweep?, lineAfter?, small, room, before, push?_eq_some]
  · simp [sweep?, lineAfter?, small, room]

theorem sweep?_eq_some (small : covered + 1 < Json.wordLimit)
    (fits : ∀ range ∈ ranges, range.2 + 1 < Json.wordLimit) :
    sweep? lines keepBlank covered gaps ranges =
      some (gaps ++ (stretches lines.length covered ranges).flatMap (wanted lines keepBlank)) := by
  -- The last line covered is the end of some range, so the next one is a word too.
  induction ranges generalizing covered gaps with
  | nil =>
    by_cases unfinished : covered < lines.length
    · simp [sweep?, stretches, lineAfter?, small, unfinished, push?_eq_some]
    · simp [sweep?, stretches, unfinished]
  | cons range rest ih =>
    obtain ⟨first, last⟩ := range
    obtain ⟨here, later⟩ := List.forall_mem_cons.mp fits
    have next : max covered last + 1 < Json.wordLimit := by
      simp only at here
      omega
    rw [sweep?_cons small, ih next later]
    by_cases room : covered + 1 < first <;> simp [stretches, room]

theorem findChecked?_eq_some (fits : ∀ range ∈ ranges, range.2 < Json.wordLimit - 1)
    (source : String) (keepBlank : Bool) :
    findChecked? ranges source keepBlank = some (find ranges source keepBlank) := by
  have sorted : ∀ range ∈ sortRanges ranges, range.2 + 1 < Json.wordLimit := by
    intro range member
    have := fits range ((sortRanges_perm ranges).mem_iff.mp member)
    omega
  rw [findChecked?, sweep?_eq_some (by decide) sorted, find, List.filterMap_eq_flatMap_toList,
    List.filter_flatMap]
  rfl

/-- Ranges may lie in any order and over one another, end before they start, start at zero and reach
past the source. Unless one ends at the last word, the sweep in words comes to its end, its gaps are
runs of lines of the source, and they leave out just the lines that a range contains. -/
theorem gaps_complement_any_ranges (ranges : List (Nat × Nat)) (source : String) (keepBlank : Bool)
    (fits : ∀ range ∈ ranges, range.2 < Json.wordLimit - 1) :
    let lineCount := (Text.lines source.toList).length
    findChecked? ranges source keepBlank = some (find ranges source keepBlank) ∧
      (∀ gap ∈ find ranges source keepBlank,
        1 ≤ gap.startLine ∧ gap.startLine ≤ gap.endLine ∧ gap.endLine ≤ lineCount) ∧
      ∀ line, 1 ≤ line → line ≤ lineCount →
        ((∃ gap ∈ find ranges source true, gap.startLine ≤ line ∧ line ≤ gap.endLine) ↔
          ¬ ∃ range ∈ ranges, range.1 ≤ line ∧ line ≤ range.2) := by
  intro lineCount
  refine ⟨findChecked?_eq_some fits source keepBlank, fun gap => bounds_of_mem_find, ?_⟩
  intro line positive inside
  have found := exists_gap_iff ranges source line
  rw [and_iff_right ⟨positive, inside⟩] at found
  simpa [Contains, range] using found

-- Reversed, zero, nested, repeated and too far, all at once.
def oddRanges : List (Nat × Nat) :=
  [(9, 30), (5, 3), (2, 2), (0, 0), (1, 2), (2, 2), (7, 0)]

def letters : String :=
  "a\nb\nc\nd\ne\nf\ng\nh\ni\n"

theorem gaps_complement_any_ranges_odd :
    (∀ range ∈ oddRanges, range.2 < Json.wordLimit - 1) ∧
      findChecked? oddRanges letters true = some (find oddRanges letters true) ∧
      (∃ gap ∈ find oddRanges letters true, gap.startLine ≤ 5 ∧ 5 ≤ gap.endLine) ∧
      ¬ ∃ gap ∈ find oddRanges letters true, gap.startLine ≤ 2 ∧ 2 ≤ gap.endLine := by
  have fits : ∀ range ∈ oddRanges, range.2 < Json.wordLimit - 1 := by decide
  obtain ⟨checked, -, complement⟩ := gaps_complement_any_ranges oddRanges letters true fits
  refine ⟨fits, checked, ?_, ?_⟩
  · exact (complement 5 (by decide) (by decide +kernel)).mpr (by decide)
  · exact mt (complement 2 (by decide) (by decide +kernel)).mp (by decide)

-- A range up to the last word does overflow where another follows it.
example : findChecked? [(1, Json.wordLimit - 1), (2, 2)] "a" true = none := by
  decide +kernel

end CodeInventory.Gap
