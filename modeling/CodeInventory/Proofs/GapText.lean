import Mathlib.Data.List.GetD
import CodeInventory.Proofs.GapSweep
import CodeInventory.Proofs.Glyphs
import CodeInventory.Text.Lines

set_option autoImplicit false

namespace CodeInventory

namespace Text

variable {c : Char} {chars rest : List Char} {glyph : Glyph}

theorem visible_append (earlier later : List Char) :
    visible (earlier ++ later) = visible earlier ++ visible later :=
  List.filter_append earlier later

theorem visible_dropWhile (chars : List Char) :
    visible (chars.dropWhile isBlank) = visible chars := by
  induction chars with
  | nil => rfl
  | cons c rest ih =>
    by_cases blank : isBlank c
    · rw [List.dropWhile_cons_of_pos blank, ih]
      simp [visible, blank]
    · rw [List.dropWhile_cons_of_neg blank]

theorem visible_reverse (chars : List Char) :
    visible chars.reverse = (visible chars).reverse :=
  List.filter_reverse

theorem visible_trimChars (chars : List Char) : visible (trimChars chars) = visible chars := by
  rw [trimChars, visible_reverse, visible_dropWhile, visible_reverse, List.reverse_reverse,
    visible_dropWhile]

theorem visible_joinLines (lines : List (List Char)) :
    visible (joinLines lines) = lines.flatMap visible := by
  induction lines with
  | nil => rfl
  | cons line rest ih =>
    cases rest with
    | nil => simp [joinLines]
    | cons next others =>
      have feed : visible ['\n'] = [] := by decide
      have joined : joinLines (line :: next :: others) =
          line ++ (['\n'] ++ joinLines (next :: others)) := by
        simp [joinLines, List.intercalate_cons_cons]
      rw [joined, visible_append, visible_append, feed, ih]
      rfl

theorem lines_cons (c : Char) (rest : List Char) :
    (c = '\n' ∧ lines (c :: rest) = [] :: lines rest) ∨
      (c ≠ '\n' ∧ isBlank c ∧ lines (c :: rest) = lines rest) ∨
      (c ≠ '\n' ∧ lines (c :: rest) = extendFirst c (lines rest)) := by
  unfold lines
  rw [List.foldr_cons, LineScan.step]
  by_cases feed : c = '\n'
  · exact .inl ⟨feed, by rw [if_pos feed]⟩
  · rw [if_neg feed]
    by_cases ending : c = '\r' ∧ (rest.foldr LineScan.step ⟨false, []⟩).atFeed
    -- A carriage return that belongs to the end of a line cannot be seen.
    · exact .inr (.inl ⟨feed, by rw [ending.1]; decide, by rw [if_pos ending]⟩)
    · exact .inr (.inr ⟨feed, by rw [if_neg ending]⟩)

theorem visible_line (offset line : Nat) (chars : List Char) (index : Nat) :
    visible ((lines chars).getD index []) =
      ((inkFrom offset line chars).filter fun glyph => glyph.line = line + index).map Glyph.char := by
  induction chars generalizing offset line index with
  | nil => rfl
  | cons c rest ih =>
    -- What follows on the same line stands there for the rest of the text already.
    have tail (index : Nat) := ih (offset + c.utf8Size) line index
    rcases lines_cons c rest with ⟨rfl, lines⟩ | ⟨feed, blank, lines⟩ | ⟨feed, lines⟩
    · rw [lines, inkFrom_feed]
      cases index with
      | zero =>
        have none : ((inkFrom (offset + 1) (line + 1) rest).filter fun glyph =>
            glyph.line = line + 0) = [] := by
          apply List.filter_eq_nil_iff.mpr
          intro glyph member
          have := ink_within member
          simp only [decide_eq_true_eq]
          omega
        rw [none]
        rfl
      | succ index =>
        rw [List.getD_cons_succ, ih (offset + 1) (line + 1) index, Nat.add_assoc, Nat.add_comm 1]
    · have unseen : inkFrom offset line (c :: rest) = inkFrom (offset + c.utf8Size) line rest := by
        simp [inkFrom, glyphsFrom, blank, feed]
      rw [lines, unseen, tail]
    · have first : inkFrom offset line (c :: rest) =
          (if isBlank c then [] else [⟨c, offset, line⟩]) ++
            inkFrom (offset + c.utf8Size) line rest := by
        by_cases blank : isBlank c <;> simp [inkFrom, glyphsFrom, blank, feed]
      rw [lines, first, List.filter_append, List.map_append, ← tail]
      cases index with
      | zero =>
        have extended : (extendFirst c (Text.lines rest)).getD 0 [] =
            c :: (Text.lines rest).getD 0 [] := by
          cases Text.lines rest <;> rfl
        rw [extended]
        by_cases blank : isBlank c <;> simp [visible, blank]
      | succ index =>
        have kept : (extendFirst c (Text.lines rest)).getD (index + 1) [] =
            (Text.lines rest).getD (index + 1) [] := by
          cases Text.lines rest <;> rfl
        rw [kept]
        by_cases blank : isBlank c <;> simp [blank]

theorem line_of_ink (member : glyph ∈ ink chars) :
    1 ≤ glyph.line ∧ glyph.line ≤ (lines chars).length := by
  have bounds := ink_within member
  refine ⟨bounds.2.1, ?_⟩
  by_contra past
  have seen := visible_line 0 1 chars (glyph.line - 1)
  rw [List.getD_eq_default _ _ (by omega), show 1 + (glyph.line - 1) = glyph.line by omega] at seen
  have inside : glyph.char ∈ ((inkFrom 0 1 chars).filter fun other =>
      other.line = glyph.line).map Glyph.char :=
    List.mem_map.mpr ⟨glyph, List.mem_filter.mpr ⟨member, by simp⟩, rfl⟩
  rw [← seen] at inside
  exact absurd inside (by simp [visible])

end Text

namespace Gap

open Text

variable {chars : List Char} {first last : Nat}

theorem drop_take_lines {lines : List (List Char)} (positive : 1 ≤ first)
    (inside : last ≤ lines.length) :
    (lines.take last).drop (first - 1) =
      (List.range' first (last + 1 - first)).map fun line => lines.getD (line - 1) [] := by
  apply List.ext_getElem
  · simp
    omega
  · intro index bound bound'
    rw [List.length_map, List.length_range'] at bound'
    have within : first + index - 1 < lines.length := by omega
    simp [show first - 1 + index = first + index - 1 by omega, within]

theorem visible_textOf_eq_flatMap {lines : List (List Char)} (positive : 1 ≤ first)
    (inside : last ≤ lines.length) :
    visible (textOf lines first last).toList =
      (List.range' first (last + 1 - first)).flatMap fun line =>
        visible (lines.getD (line - 1) []) := by
  rw [textOf, String.toList_ofList, visible_trimChars, visible_joinLines,
    drop_take_lines positive inside, List.flatMap_map]

theorem visible_textOf (positive : 1 ≤ first) (inside : last ≤ (lines chars).length) :
    visible (textOf (lines chars) first last).toList =
      ((ink chars).filter fun glyph => Contains (first, last) glyph.line).map Glyph.char := by
  have ordered : (List.range' first (last + 1 - first)).Pairwise fun left right =>
      ∀ earlier ∈ ink chars, ∀ later ∈ ink chars, earlier.line = left → later.line = right →
        earlier.offset < later.offset := by
    apply (List.pairwise_lt_range' 1).imp
    rintro left right lower earlier inEarlier later inLater rfl rfl
    exact offset_lt_of_line_lt inEarlier inLater lower
  have within (glyph : Glyph) :
      (∃ line ∈ List.range' first (last + 1 - first), glyph.line = line) ↔
        Contains (first, last) glyph.line := by
    rw [exists_eq_right', List.mem_range'_1, Contains]
    omega
  calc
    _ = (List.range' first (last + 1 - first)).flatMap fun line =>
        visible ((lines chars).getD (line - 1) []) := visible_textOf_eq_flatMap positive inside
    _ = (List.range' first (last + 1 - first)).flatMap fun line =>
        ((ink chars).filter fun glyph => glyph.line = line).map Glyph.char := by
      apply List.flatMap_congr
      intro line member
      have lower : first ≤ line := (List.mem_range'_1.mp member).1
      rw [visible_line 0 1, show 1 + (line - 1) = line by omega]
      rfl
    _ = _ := by
      rw [← List.map_flatMap, flatMap_filter_ink ordered]
      simp only [within]

theorem lines_of_mem_find {ranges : List (Nat × Nat)} {source : String} {gap : Gap}
    (member : gap ∈ find ranges source true) :
    1 ≤ gap.startLine ∧ gap.startLine ≤ gap.endLine ∧
      visible gap.text.toList =
        ((ink source.toList).filter fun glyph => Contains gap.range glyph.line).map Glyph.char := by
  obtain ⟨positive, nonempty, inside⟩ := bounds_of_mem_find member
  refine ⟨positive, nonempty, ?_⟩
  rw [text_of_mem_find member, visible_textOf positive inside]
  rfl

end Gap

end CodeInventory
