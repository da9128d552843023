import Mathlib.Data.List.Infix
import CodeInventory.Marker

set_option autoImplicit false

namespace CodeInventory

theorem Text.append_eq_append_cases {a b c d : String} (same : a ++ b = c ++ d) :
    (∃ middle, c = a ++ middle ∧ b = middle ++ d) ∨
      ∃ middle, a = c ++ middle ∧ d = middle ++ b := by
  rw [← String.toList_inj, String.toList_append, String.toList_append,
    List.append_eq_append_iff] at same
  rcases same with ⟨middle, first, second⟩ | ⟨middle, first, second⟩
  · left
    refine ⟨.ofList middle, ?_, ?_⟩ <;> rw [← String.toList_inj] <;> simp [first, second]
  · right
    refine ⟨.ofList middle, ?_, ?_⟩ <;> rw [← String.toList_inj] <;> simp [first, second]

namespace Marker

inductive Mark : String → Prop where
  | library : Mark "React"
  | bracket : Mark "<"
  | properties : Mark "props"
  | rendering : Mark "render"
  | markup (first second third : Char) : first ∈ ['j', 'J', 't', 'T'] →
      second ∈ ['s', 'S', '\u017F'] → third ∈ ['x', 'X'] →
      Mark (String.ofList [first, second, third])

theorem Mark.length_bounds {mark : String} (marks : Mark mark) :
    0 < mark.length ∧ mark.length ≤ 6 := by
  cases marks
  case markup => simp
  all_goals decide

theorem mark_of_mem_plainMarks {mark : List Char} (plain : mark ∈ plainMarks) :
    Mark (String.ofList mark) := by
  simp only [plainMarks, List.mem_cons, List.not_mem_nil, or_false] at plain
  rcases plain with rfl | rfl | rfl | rfl
  · exact .library
  · exact .bracket
  · exact .properties
  · exact .rendering

theorem startsWithMarkupName_iff (chars : List Char) :
    startsWithMarkupName chars ↔ ∃ first ∈ ['j', 'J', 't', 'T'], ∃ second ∈ ['s', 'S', '\u017F'],
      ∃ third ∈ ['x', 'X'], [first, second, third] <+: chars := by
  constructor
  · intro named
    unfold startsWithMarkupName at named
    split at named
    next first second third rest =>
      simp only [Bool.and_eq_true, List.elem_iff] at named
      exact ⟨first, named.1.1, second, named.1.2, third, named.2, rest, rfl⟩
    next => simp at named
  · rintro ⟨first, isFirst, second, isSecond, third, isThird, rest, rfl⟩
    simp [startsWithMarkupName, longS, *]

theorem startsWithMark_iff (chars : List Char) :
    startsWithMark chars ↔ ∃ mark, Mark mark ∧ mark.toList <+: chars := by
  rw [startsWithMark, Bool.or_eq_true, List.any_eq_true, startsWithMarkupName_iff]
  constructor
  · rintro (⟨mark, plain, start⟩ | ⟨first, isFirst, second, isSecond, third, isThird, start⟩)
    · refine ⟨_, mark_of_mem_plainMarks plain, ?_⟩
      rw [String.toList_ofList]
      exact List.isPrefixOf_iff_prefix.mp start
    · refine ⟨_, .markup first second third isFirst isSecond isThird, ?_⟩
      rwa [String.toList_ofList]
  · rintro ⟨mark, marks, start⟩
    cases marks
    case markup first second third isFirst isSecond isThird =>
      rw [String.toList_ofList] at start
      exact .inr ⟨first, isFirst, second, isSecond, third, isThird, start⟩
    all_goals exact .inl ⟨_, by decide, List.isPrefixOf_iff_prefix.mpr start⟩

theorem hasMark_iff (chars : List Char) :
    hasMark chars ↔ ∃ mark, Mark mark ∧ mark.toList <:+: chars := by
  induction chars with
  | nil =>
    -- No mark is empty.
    refine ⟨fun marked => absurd marked Bool.false_ne_true, ?_⟩
    rintro ⟨mark, marks, inside⟩
    have nothing : mark = "" := by simpa using inside
    exact absurd marks.length_bounds.1 (by simp [nothing])
  | cons c rest ih =>
    rw [hasMark, Bool.or_eq_true, startsWithMark_iff, ih, ← exists_or]
    simp only [List.infix_cons_iff, and_or_left]

theorem isComponent_iff (code : String) :
    isComponent code ↔ ∃ before mark after, Mark mark ∧ code = before ++ mark ++ after := by
  rw [isComponent, hasMark_iff]
  constructor
  · rintro ⟨mark, marks, before, after, split⟩
    refine ⟨.ofList before, mark, .ofList after, marks, ?_⟩
    rw [← String.toList_inj]
    simp [split]
  · rintro ⟨before, mark, after, marks, rfl⟩
    exact ⟨mark, marks, before.toList, after.toList, by simp⟩

theorem isComponent_extend {code : String} (marked : isComponent code) (before after : String) :
    isComponent (before ++ code ++ after) := by
  rw [isComponent_iff] at marked ⊢
  obtain ⟨front, mark, back, marks, rfl⟩ := marked
  exact ⟨before ++ front, mark, back ++ after, marks, by simp [String.append_assoc]⟩

theorem mark_straddles {left right before mark after : String} (clearLeft : ¬ isComponent left)
    (clearRight : ¬ isComponent right) (marks : Mark mark)
    (found : left ++ right = before ++ mark ++ after) :
    ∃ head tail, mark = head ++ tail ∧ left = before ++ head ∧ right = tail ++ after ∧
      0 < head.length ∧ 0 < tail.length := by
  rw [isComponent_iff] at clearLeft clearRight
  -- A mark that does not cross the seam would stand in one of the two texts.
  rcases Text.append_eq_append_cases found with ⟨tail, reach, rest⟩ | ⟨middle, inside, -⟩
  · rcases Text.append_eq_append_cases reach with ⟨head, begin, cut⟩ | ⟨middle, -, inside⟩
    · refine ⟨head, tail, cut, begin, rest, ?_, ?_⟩
      · rw [Nat.pos_iff_ne_zero, ne_eq, String.length_eq_zero_iff]
        rintro rfl
        exact clearRight ⟨"", mark, after, marks, by simp [rest, cut]⟩
      · rw [Nat.pos_iff_ne_zero, ne_eq, String.length_eq_zero_iff]
        rintro rfl
        exact clearLeft ⟨before, mark, "", marks, by simp [begin, cut]⟩
    · exact absurd ⟨middle, mark, after, marks, by rw [rest, inside]⟩ clearRight
  · exact absurd ⟨before, mark, middle, marks, inside⟩ clearLeft

/-- Code has the mark of a component just when a mark stands somewhere in it, so what is added
around the code takes none away. Where two texts have none but together have, every mark in them
begins within the last five characters of the first and ends within the first five of the second. -/
theorem component_marks_are_factors :
    (∀ code, isComponent code ↔
        ∃ before mark after, Mark mark ∧ code = before ++ mark ++ after) ∧
      (∀ code, isComponent code → ∀ before after, isComponent (before ++ code ++ after)) ∧
      ∀ left right, isComponent (left ++ right) → ¬ isComponent left → ¬ isComponent right →
        (∃ before mark after, Mark mark ∧ left ++ right = before ++ mark ++ after) ∧
          ∀ before mark after, Mark mark → left ++ right = before ++ mark ++ after →
            ∃ head tail, mark = head ++ tail ∧ left = before ++ head ∧ right = tail ++ after ∧
              (0 < head.length ∧ head.length ≤ 5) ∧ 0 < tail.length ∧ tail.length ≤ 5 := by
  refine ⟨isComponent_iff, fun code => isComponent_extend, ?_⟩
  intro left right marked clearLeft clearRight
  refine ⟨(isComponent_iff _).mp marked, fun before mark after marks found => ?_⟩
  obtain ⟨head, tail, cut, begin, rest, headLength, tailLength⟩ :=
    mark_straddles clearLeft clearRight marks found
  have total : head.length + tail.length ≤ 6 := by
    rw [← String.length_append, ← cut]
    exact marks.length_bounds.2
  exact ⟨head, tail, cut, begin, rest, by omega, by omega⟩

-- The seam cuts `tsx`, written with the long s.
theorem component_marks_are_factors_seam :
    isComponent "t\u017FX" ∧ isComponent ("// a." ++ "t\u017FX" ++ "\n") ∧
      isComponent ("a.t" ++ "\u017FX\n") ∧ ¬ isComponent "a.t" ∧ ¬ isComponent "\u017FX\n" ∧
      ∃ head tail, "t\u017FX" = head ++ tail ∧ "a.t" = "a." ++ head ∧
        "\u017FX\n" = tail ++ "\n" ∧
        (0 < head.length ∧ head.length ≤ 5) ∧ 0 < tail.length ∧ tail.length ≤ 5 := by
  have mark : Mark "t\u017FX" := .markup 't' '\u017F' 'X' (by decide) (by decide) (by decide)
  obtain ⟨factors, wider, seam⟩ := component_marks_are_factors
  have marked : isComponent "t\u017FX" := (factors _).mpr ⟨"", _, "", mark, by decide⟩
  have joined : isComponent ("a.t" ++ "\u017FX\n") := wider _ marked "a." "\n"
  have clearLeft : ¬ isComponent "a.t" := by decide
  have clearRight : ¬ isComponent "\u017FX\n" := by decide
  obtain ⟨-, straddles⟩ := seam "a.t" "\u017FX\n" joined clearLeft clearRight
  exact ⟨marked, wider _ marked _ _, joined, clearLeft, clearRight,
    straddles "a." _ "\n" mark (by decide)⟩

end Marker

end CodeInventory
