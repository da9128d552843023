import Mathlib.Data.List.Infix
import Mathlib.Data.List.Perm.Basic
import CodeInventory.Proofs.Utf8
import CodeInventory.Text.Blank

set_option autoImplicit false

namespace CodeInventory.Text

structure Glyph where
  char : Char
  offset : Nat
  line : Nat
deriving DecidableEq

def glyphsFrom (offset line : Nat) : List Char → List Glyph
  | [] => []
  | c :: rest =>
      ⟨c, offset, line⟩ ::
        glyphsFrom (offset + c.utf8Size) (if c = '\n' then line + 1 else line) rest

def inkFrom (offset line : Nat) (chars : List Char) : List Glyph :=
  (glyphsFrom offset line chars).filter fun glyph => !isBlank glyph.char

def ink (chars : List Char) : List Glyph :=
  inkFrom 0 1 chars

variable {chars before inside after : List Char} {offset line : Nat} {glyph : Glyph}

theorem map_char_glyphsFrom (offset line : Nat) (chars : List Char) :
    (glyphsFrom offset line chars).map Glyph.char = chars := by
  induction chars generalizing offset line with
  | nil => rfl
  | cons c rest ih => simp [glyphsFrom, ih]

theorem map_char_inkFrom (offset line : Nat) (chars : List Char) :
    (inkFrom offset line chars).map Glyph.char = visible chars := by
  have characters := map_char_glyphsFrom offset line chars
  calc
    _ = ((glyphsFrom offset line chars).map Glyph.char).filter fun c => !isBlank c :=
      (List.filter_map).symm
    _ = visible chars := by rw [characters, visible]

theorem glyphsFrom_append (offset line : Nat) (earlier later : List Char) :
    glyphsFrom offset line (earlier ++ later) =
      glyphsFrom offset line earlier ++
        glyphsFrom (offset + width earlier) (line + earlier.count '\n') later := by
  induction earlier generalizing offset line with
  | nil => simp [glyphsFrom, width]
  | cons c rest ih =>
    have further : (if c = '\n' then line + 1 else line) + rest.count '\n' =
        line + (c :: rest).count '\n' := by
      by_cases feed : c = '\n'
      · simp [feed]
        omega
      · simp [feed]
    simp [glyphsFrom, ih, further, width, Nat.add_assoc]

theorem inkFrom_append (offset line : Nat) (earlier later : List Char) :
    inkFrom offset line (earlier ++ later) =
      inkFrom offset line earlier ++
        inkFrom (offset + width earlier) (line + earlier.count '\n') later := by
  simp [inkFrom, glyphsFrom_append]

theorem glyph_within (member : glyph ∈ glyphsFrom offset line chars) :
    (offset ≤ glyph.offset ∧ glyph.offset < offset + width chars) ∧
      line ≤ glyph.line ∧ glyph.line ≤ line + chars.count '\n' := by
  induction chars generalizing offset line with
  | nil => simp [glyphsFrom] at member
  | cons c rest ih =>
    have positive := c.utf8Size_pos
    have whole : width (c :: rest) = c.utf8Size + width rest := rfl
    rcases List.mem_cons.mp member with rfl | later
    · simp only
      omega
    · have inner := ih later
      by_cases feed : c = '\n'
      · subst feed
        simp only [if_true, List.count_cons_self] at inner ⊢
        omega
      · simp only [if_neg feed, List.count_cons_of_ne feed] at inner ⊢
        omega

theorem ink_within (member : glyph ∈ inkFrom offset line chars) :
    (offset ≤ glyph.offset ∧ glyph.offset < offset + width chars) ∧
      line ≤ glyph.line ∧ glyph.line ≤ line + chars.count '\n' :=
  glyph_within (List.mem_of_mem_filter member)

theorem inkFrom_feed (offset line : Nat) (rest : List Char) :
    inkFrom offset line ('\n' :: rest) = inkFrom (offset + 1) (line + 1) rest :=
  rfl

theorem glyphs_in_order (offset line : Nat) (chars : List Char) :
    (glyphsFrom offset line chars).Pairwise fun earlier later =>
      earlier.offset < later.offset ∧ earlier.line ≤ later.line := by
  induction chars generalizing offset line with
  | nil => exact List.Pairwise.nil
  | cons c rest ih =>
    refine List.pairwise_cons.mpr ⟨?_, ih _ _⟩
    intro later member
    have positive := c.utf8Size_pos
    have bounds := glyph_within member
    have lines : line ≤ if c = '\n' then line + 1 else line := by split <;> omega
    simp only
    omega

theorem ink_in_order (chars : List Char) :
    (ink chars).Pairwise fun earlier later =>
      earlier.offset < later.offset ∧ earlier.line ≤ later.line :=
  (glyphs_in_order 0 1 chars).filter _

theorem offset_lt_of_line_lt {earlier later : Glyph} (inEarlier : earlier ∈ ink chars)
    (inLater : later ∈ ink chars) (lines : earlier.line < later.line) :
    earlier.offset < later.offset := by
  obtain ⟨index, bound, rfl⟩ := List.getElem_of_mem inEarlier
  obtain ⟨index', bound', rfl⟩ := List.getElem_of_mem inLater
  have ordered := List.pairwise_iff_getElem.mp (ink_in_order chars)
  rcases Nat.lt_trichotomy index index' with before | rfl | behind
  · exact (ordered index index' bound bound' before).1
  · exact absurd lines (Nat.lt_irrefl _)
  · have := (ordered index' index bound' bound behind).2
    omega

-- Pieces that hold glyphs one after another hold them in the order of the text, each once.
theorem flatMap_filter_ink {α : Type} {pieces : List α} {holds : α → Glyph → Prop}
    [∀ piece, DecidablePred (holds piece)]
    (ordered : pieces.Pairwise fun left right => ∀ earlier ∈ ink chars, ∀ later ∈ ink chars,
      holds left earlier → holds right later → earlier.offset < later.offset) :
    (pieces.flatMap fun piece => (ink chars).filter fun glyph => holds piece glyph) =
      (ink chars).filter fun glyph => ∃ piece ∈ pieces, holds piece glyph := by
  have lower := (ink_in_order chars).imp fun {earlier later} both =>
    show earlier.offset < later.offset from both.1
  have distinct {glyphs : List Glyph} (sorted : glyphs.Pairwise fun earlier later =>
      earlier.offset < later.offset) : glyphs.Nodup := by
    apply sorted.imp
    rintro earlier later before rfl
    exact Nat.lt_irrefl _ before
  have sorted : (pieces.flatMap fun piece => (ink chars).filter fun glyph => holds piece glyph).Pairwise
      fun earlier later => earlier.offset < later.offset := by
    refine List.pairwise_flatMap.mpr ⟨fun piece _ => lower.filter _, ?_⟩
    apply ordered.imp
    intro left right before earlier inLeft later inRight
    simp only [List.mem_filter, decide_eq_true_eq] at inLeft inRight
    exact before earlier inLeft.1 later inRight.1 inLeft.2 inRight.2
  have whole := lower.filter fun glyph => decide (∃ piece ∈ pieces, holds piece glyph)
  have same : (pieces.flatMap fun piece => (ink chars).filter fun glyph => holds piece glyph).Perm
      ((ink chars).filter fun glyph => ∃ piece ∈ pieces, holds piece glyph) := by
    apply (List.perm_ext_iff_of_nodup (distinct sorted) (distinct whole)).mpr
    intro glyph
    simp only [List.mem_flatMap, List.mem_filter, decide_eq_true_eq]
    grind
  -- Lists that ascend strictly are equal as soon as they have the same members.
  apply same.eq_of_pairwise _ sorted whole
  intro earlier later _ _ before behind
  omega

theorem map_char_filter_ink (split : chars = before ++ (inside ++ after)) :
    ((ink chars).filter fun glyph =>
        width before ≤ glyph.offset ∧ glyph.offset < width (before ++ inside)).map Glyph.char =
      visible inside := by
  have first : ∀ glyph ∈ inkFrom 0 1 before, ¬ (width before ≤ glyph.offset ∧
      glyph.offset < width (before ++ inside)) := by
    intro glyph member
    have := ink_within member
    omega
  have middle : ∀ glyph ∈ inkFrom (0 + width before) (1 + before.count '\n') inside,
      width before ≤ glyph.offset ∧ glyph.offset < width (before ++ inside) := by
    intro glyph member
    have := ink_within member
    rw [width_append]
    omega
  have last : ∀ glyph ∈ inkFrom (0 + width before + width inside)
      (1 + before.count '\n' + inside.count '\n') after, ¬ (width before ≤ glyph.offset ∧
      glyph.offset < width (before ++ inside)) := by
    intro glyph member
    have := ink_within member
    rw [width_append]
    omega
  rw [split, ink, inkFrom_append, inkFrom_append, List.filter_append, List.filter_append,
    List.filter_eq_nil_iff.mpr (by simpa using first),
    List.filter_eq_self.mpr (by simpa using middle),
    List.filter_eq_nil_iff.mpr (by simpa using last), List.nil_append, List.append_nil,
    map_char_inkFrom]

-- The offset lies between two characters, with so many line feeds before it and so many octets
-- since the last of them.
def StandsAt (chars : List Char) (offset row column : Nat) : Prop :=
  ∃ before ∈ chars.inits, width before = offset ∧ before.count '\n' = row ∧
    width (before.reverse.takeWhile fun c => c ≠ '\n') = column

instance (chars : List Char) (offset row column : Nat) :
    Decidable (StandsAt chars offset row column) :=
  inferInstanceAs (Decidable (∃ before ∈ chars.inits, _))

variable {row column : Nat}

theorem eq_nil_of_width (none : width chars = 0) : chars = [] := by
  cases chars with
  | nil => rfl
  | cons c rest =>
    have := c.utf8Size_pos
    simp only [width] at none
    omega

theorem prefix_of_width_le {before' : List Char} (path : before <+: chars)
    (path' : before' <+: chars) (ordered : width before ≤ width before') : before <+: before' := by
  rcases List.prefix_or_prefix_of_prefix path path' with shorter | ⟨rest, rfl⟩
  · exact shorter
  · have nothing : rest = [] := by
      apply eq_nil_of_width
      rw [width_append] at ordered
      omega
    simp [nothing]

theorem StandsAt.split (stands : StandsAt chars offset row column) :
    ∃ before after, chars = before ++ after ∧ width before = offset ∧ before.count '\n' = row ∧
      width (before.reverse.takeWhile fun c => c ≠ '\n') = column := by
  obtain ⟨before, member, facts⟩ := stands
  obtain ⟨after, whole⟩ := (List.mem_inits before chars).mp member
  exact ⟨before, after, whole.symm, facts⟩

theorem StandsAt.split_both {offset' row' column' : Nat}
    (stands : StandsAt chars offset row column) (stands' : StandsAt chars offset' row' column')
    (ordered : offset ≤ offset') :
    ∃ before inside after, chars = before ++ (inside ++ after) ∧ width before = offset ∧
      width (before ++ inside) = offset' ∧ before.count '\n' = row ∧
      (before ++ inside).count '\n' = row' := by
  obtain ⟨before, after, whole, width_eq, count_eq, -⟩ := stands.split
  obtain ⟨before', after', whole', width_eq', count_eq', -⟩ := stands'.split
  -- What stands before the lower offset stands before the higher one too.
  obtain ⟨inside, rfl⟩ : before <+: before' :=
    prefix_of_width_le ⟨after, whole.symm⟩ ⟨after', whole'.symm⟩ (by omega)
  exact ⟨before, inside, after', by rw [whole', List.append_assoc], width_eq, width_eq', count_eq,
    count_eq'⟩

theorem StandsAt.place_of_prefix (stands : StandsAt chars (width before) row column)
    (path : before <+: chars) :
    before.count '\n' = row ∧ width (before.reverse.takeWhile fun c => c ≠ '\n') = column := by
  obtain ⟨other, after, whole, width_eq, facts⟩ := stands.split
  have path' : other <+: chars := ⟨after, whole.symm⟩
  -- Two starts of one text of the same width are one.
  obtain rfl : before = other :=
    antisymm (prefix_of_width_le path path' (by omega)) (prefix_of_width_le path' path (by omega))
  exact facts

theorem StandsAt.row_mono {offset' row' column' : Nat}
    (stands : StandsAt chars offset row column) (stands' : StandsAt chars offset' row' column')
    (ordered : offset ≤ offset') : row ≤ row' := by
  obtain ⟨before, inside, after, -, -, -, rfl, rfl⟩ := stands.split_both stands' ordered
  rw [List.count_append]
  omega

theorem StandsAt.line_of_lt (stands : StandsAt chars offset row column)
    (member : glyph ∈ ink chars) (lower : glyph.offset < offset) : glyph.line ≤ row + 1 := by
  obtain ⟨before, after, rfl, rfl, rfl, -⟩ := stands.split
  rw [ink, inkFrom_append, List.mem_append] at member
  rcases member with first | second
  · have := ink_within first
    omega
  · have := ink_within second
    omega

theorem StandsAt.line_of_ge (stands : StandsAt chars offset row column)
    (member : glyph ∈ ink chars) (higher : offset ≤ glyph.offset) : row + 1 ≤ glyph.line := by
  obtain ⟨before, after, rfl, rfl, rfl, -⟩ := stands.split
  rw [ink, inkFrom_append, List.mem_append] at member
  rcases member with first | second
  · have := ink_within first
    omega
  · have := ink_within second
    omega

theorem last_of_column_zero {last : Char}
    (start : width ((before ++ [last]).reverse.takeWhile fun c => c ≠ '\n') = 0) :
    last = '\n' := by
  by_contra other
  rw [List.reverse_append, List.reverse_singleton, List.singleton_append,
    List.takeWhile_cons_of_pos (by simpa using other)] at start
  cases eq_nil_of_width start

theorem StandsAt.line_of_lt_start (stands : StandsAt chars offset row 0)
    (member : glyph ∈ ink chars) (lower : glyph.offset < offset) : glyph.line ≤ row := by
  obtain ⟨before, after, rfl, rfl, rfl, start⟩ := stands.split
  rcases List.eq_nil_or_concat before with rfl | ⟨earlier, last, rfl⟩
  · simp [width] at lower
  · rw [List.concat_eq_append] at start member lower ⊢
    obtain rfl := last_of_column_zero start
    -- The line feed itself cannot be seen.
    rw [ink, List.append_assoc, inkFrom_append, List.singleton_append, inkFrom_feed,
      List.mem_append] at member
    rw [width_append] at lower
    rw [List.count_append]
    have one : width ['\n'] = 1 := rfl
    have single : ['\n'].count '\n' = 1 := rfl
    rcases member with first | second
    · have := ink_within first
      omega
    · have := ink_within second
      omega

end CodeInventory.Text
