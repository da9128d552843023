import Mathlib.Data.List.DropRight
import Mathlib.Data.List.Sort
import CodeInventory.Proofs.CheckedSweep
import CodeInventory.Proofs.GapText

set_option autoImplicit false

namespace CodeInventory

namespace Text

theorem not_isBlank_of_head? (chars : List Char) {c : Char}
    (first : c ∈ (chars.dropWhile isBlank).head?) : ¬ isBlank c := by
  have kept := List.head?_dropWhile_not isBlank chars
  rw [Option.mem_def.mp first] at kept
  simp [kept]

theorem trimChars_prefix (chars : List Char) : trimChars chars <+: chars.dropWhile isBlank :=
  List.rdropWhile_prefix isBlank (chars.dropWhile isBlank)

theorem ends_of_trimChars (chars : List Char) :
    (∀ c ∈ (trimChars chars).head?, ¬ isBlank c) ∧
      ∀ c ∈ (trimChars chars).getLast?, ¬ isBlank c := by
  constructor
  · intro c first
    obtain ⟨rest, split⟩ := trimChars_prefix chars
    refine not_isBlank_of_head? chars ?_
    rw [← split, List.head?_append, Option.mem_def.mp first]
    rfl
  · intro c last
    rw [trimChars, List.getLast?_reverse] at last
    exact not_isBlank_of_head? _ last

theorem zipIdx_eq_map (lines : List (List Char)) :
    lines.zipIdx 1 =
      (List.range' 1 lines.length).map fun line => (lines.getD (line - 1) [], line) := by
  apply List.ext_getElem
  · simp
  · intro index bound bound'
    rw [List.length_zipIdx] at bound
    simp [bound]

end Text

namespace Gap

open Text

variable {lines : List (List Char)} {gaps : List Gap} {gap : Gap} {source : String}
  {ranges : List (Nat × Nat)} {covered first last : Nat}

def withoutBlank (gaps : List Gap) : List Gap :=
  gaps.filter fun gap => gap.text ≠ ""

theorem push?_withoutBlank :
    push? lines false (withoutBlank gaps) first last =
      (push? lines true gaps first last).map withoutBlank := by
  unfold push?
  by_cases nothing : min last lines.length < first
  · simp [nothing]
  · simp only [if_neg nothing]
    cases lineBefore? first with
    | none => rfl
    | some start =>
      simp only [Option.bind_eq_bind, Option.bind_some]
      cases cut? lines start (min last lines.length) with
      | none => rfl
      | some piece =>
        by_cases blank : trimChars (joinLines piece) = [] <;> simp [withoutBlank, blank]

theorem sweep?_withoutBlank :
    sweep? lines false covered (withoutBlank gaps) ranges =
      (sweep? lines true covered gaps ranges).map withoutBlank := by
  -- So far, what the two sweeps have found differs in the blank gaps.
  induction ranges generalizing covered gaps with
  | nil =>
    by_cases unfinished : covered < lines.length
    · cases next : lineAfter? covered <;> simp [sweep?, unfinished, next, push?_withoutBlank]
    · simp [sweep?, unfinished]
  | cons range rest ih =>
    obtain ⟨first, last⟩ := range
    cases after : lineAfter? covered with
    | none => simp [sweep?, after]
    | some next =>
      by_cases room : next < first
      · cases before : lineBefore? first with
        | none => simp [sweep?, after, room, before]
        | some stop =>
          cases pushed : push? lines true gaps next stop <;>
            simp [sweep?, after, room, before, push?_withoutBlank, pushed, ih]
      · simp [sweep?, after, room, ih]

theorem findChecked?_withoutBlank (ranges : List (Nat × Nat)) (source : String) :
    findChecked? ranges source false = (findChecked? ranges source true).map withoutBlank := by
  rw [findChecked?, findChecked?, ← sweep?_withoutBlank]
  rfl

theorem find_withoutBlank (ranges : List (Nat × Nat)) (source : String) :
    find ranges source false = withoutBlank (find ranges source true) := by
  rw [find_eq_filter]
  rfl

theorem visible_withoutBlank (gaps : List Gap) :
    (withoutBlank gaps).flatMap (fun gap => visible gap.text.toList) =
      gaps.flatMap fun gap => visible gap.text.toList := by
  induction gaps with
  | nil => rfl
  | cons gap rest ih =>
    by_cases blank : gap.text = ""
    · have nothing : visible gap.text.toList = [] := by
        rw [blank]
        rfl
      rw [List.flatMap_cons, nothing, List.nil_append, ← ih]
      simp [withoutBlank, blank]
    · rw [List.flatMap_cons, ← ih]
      simp [withoutBlank, blank]

def lineNumbers (gap : Gap) : List Nat :=
  List.range' gap.startLine (gap.endLine + 1 - gap.startLine)

theorem mem_lineNumbers {line : Nat} : line ∈ gap.lineNumbers ↔ Contains gap.range line := by
  rw [lineNumbers, List.mem_range'_1, Contains, range]
  omega

theorem flatMap_lineNumbers (upright : ∀ range ∈ ranges, range.1 ≤ range.2) (source : String) :
    (find ranges source true).flatMap lineNumbers =
      (List.range' 1 (Text.lines source.toList).length).filter fun line =>
        ∀ range ∈ ranges, ¬ Contains range line := by
  have ascending : ((find ranges source true).flatMap lineNumbers).Pairwise (· < ·) := by
    rw [List.pairwise_flatMap]
    refine ⟨fun gap _ => List.pairwise_lt_range' 1, ?_⟩
    refine (find_separated upright source true).imp fun separated line inLeft line' inRight => ?_
    have lower := (mem_lineNumbers.mp inLeft).2
    have upper := (mem_lineNumbers.mp inRight).1
    simp only [range] at lower upper
    omega
  refine ascending.eq_of_mem_iff ((List.pairwise_lt_range' 1).filter _) fun line => ?_
  have found := exists_gap_iff ranges source line
  have within : line ∈ List.range' 1 (Text.lines source.toList).length ↔
      1 ≤ line ∧ line ≤ (Text.lines source.toList).length := by
    rw [List.mem_range'_1]
    omega
  simp only [List.mem_flatMap, mem_lineNumbers, found, List.mem_filter, within, decide_eq_true_eq]

theorem visible_text_of_mem_find (member : gap ∈ find ranges source true) :
    visible gap.text.toList = gap.lineNumbers.flatMap fun line =>
      visible ((Text.lines source.toList).getD (line - 1) []) := by
  obtain ⟨positive, -, inside⟩ := bounds_of_mem_find member
  rw [text_of_mem_find member, visible_textOf_eq_flatMap positive inside]
  rfl

theorem visible_texts (upright : ∀ range ∈ ranges, range.1 ≤ range.2) (source : String)
    (keepBlank : Bool) :
    visible (String.join (texts ranges source keepBlank)).toList =
      (((Text.lines source.toList).zipIdx 1).filter fun numbered =>
        ∀ range ∈ ranges, ¬ Contains range numbered.2).flatMap fun numbered =>
          visible numbered.1 := by
  have dropped : (find ranges source keepBlank).flatMap (fun gap => visible gap.text.toList) =
      (find ranges source true).flatMap fun gap => visible gap.text.toList := by
    cases keepBlank with
    | true => rfl
    | false => rw [find_withoutBlank, visible_withoutBlank]
  calc
    _ = (find ranges source true).flatMap fun gap => visible gap.text.toList := by
      rw [String.toList_join, texts, List.flatMap_map, visible, List.filter_flatMap, ← dropped]
      rfl
    _ = (find ranges source true).flatMap fun gap => gap.lineNumbers.flatMap fun line =>
        visible ((Text.lines source.toList).getD (line - 1) []) :=
      List.flatMap_congr fun gap member => visible_text_of_mem_find member
    _ = _ := by
      rw [← List.flatMap_assoc, flatMap_lineNumbers upright, zipIdx_eq_map, List.filter_map,
        List.flatMap_map]
      rfl

/-- The texts of the gaps show what the uncovered lines show, in the order of the lines, whether
blank gaps are kept or not. No text begins or ends blank, and to drop blank gaps on the way is to
drop them at the end. -/
theorem loose_text_shows_uncovered_lines (ranges : List (Nat × Nat)) (source : String) :
    ((∀ range ∈ ranges, range.1 ≤ range.2) → ∀ keepBlank,
        visible (String.join (texts ranges source keepBlank)).toList =
          (((Text.lines source.toList).zipIdx 1).filter fun numbered =>
            ∀ range ∈ ranges, ¬ Contains range numbered.2).flatMap fun numbered =>
              visible numbered.1) ∧
      (∀ keepBlank, ∀ text ∈ texts ranges source keepBlank,
        (∀ c ∈ text.toList.head?, ¬ isBlank c) ∧ ∀ c ∈ text.toList.getLast?, ¬ isBlank c) ∧
      findChecked? ranges source false =
        (findChecked? ranges source true).map (List.filter fun gap => gap.text ≠ "") ∧
      find ranges source false = (find ranges source true).filter fun gap => gap.text ≠ "" := by
  refine ⟨fun upright => visible_texts upright source, ?_, findChecked?_withoutBlank ranges source,
    find_withoutBlank ranges source⟩
  intro keepBlank text member
  obtain ⟨gap, found, rfl⟩ := List.mem_map.mp member
  rw [find_eq_filter] at found
  rw [text_of_mem_find (List.mem_filter.mp found).1, textOf, String.toList_ofList]
  exact ends_of_trimChars _

-- Both kinds of line endings, a return within a line, and blanks that are no plain spaces.
def mixedSource : String :=
  "use a;\r\n\u00a0b \u3000\r\n\t\r\nfn f() {}\n\u2003\nfn g() {}\nc\rd"

def mixedRanges : List (Nat × Nat) :=
  [(6, 6), (4, 4), (1, 1)]

theorem loose_text_shows_uncovered_lines_mixed :
    (∀ range ∈ mixedRanges, range.1 ≤ range.2) ∧
      texts mixedRanges mixedSource true = ["b", "", "c\rd"] ∧
      visible (String.join (texts mixedRanges mixedSource false)).toList = "bcd".toList := by
  have upright : ∀ range ∈ mixedRanges, range.1 ≤ range.2 := by decide
  obtain ⟨shown, -⟩ := loose_text_shows_uncovered_lines mixedRanges mixedSource
  refine ⟨upright, by decide +kernel, (shown upright false).trans ?_⟩
  decide +kernel

end Gap

end CodeInventory
