import Mathlib.Data.List.Sort
import CodeInventory.Proofs.GapText
import CodeInventory.Proofs.Sites

set_option autoImplicit false

namespace CodeInventory

open Inventory SyntaxTree Text Walk

inductive Piece where
  | chunk (site : Site)
  | loose (gap : Gap)
deriving DecidableEq

namespace Piece

variable {chars : List Char} {piece left right : Piece} {earlier later : Glyph}

def text : Piece → String
  | chunk site => site.construct.chunk.code
  | loose gap => gap.text

def lines : Piece → Nat × Nat
  | chunk site => site.construct.chunk.range
  | loose gap => gap.range

def startByte : Piece → Nat
  | chunk site => site.span.startByte
  | loose _ => 0

def Before (left right : Piece) : Prop :=
  Gap.rangeBefore (left.lines.1, left.startByte) (right.lines.1, right.startByte)

instance : DecidableRel Before :=
  fun _ _ => inferInstanceAs (Decidable (_ = true))

instance : Std.Total Before :=
  ⟨fun _ _ => Gap.rangeBefore_total _ _⟩

instance : IsTrans Piece Before :=
  ⟨fun _ _ _ => Gap.rangeBefore_trans⟩

theorem before_iff : left.Before right ↔ left.lines.1 < right.lines.1 ∨
    left.lines.1 = right.lines.1 ∧ left.startByte ≤ right.startByte := by
  simp [Before, Gap.rangeBefore]

def listing (sites : List Site) (gaps : List Gap) : List Piece :=
  (sites.map chunk ++ gaps.map loose).insertionSort Before

def Holds : Piece → Glyph → Prop
  | chunk site, glyph => site.span.Encloses glyph.offset
  | loose gap, glyph => Contains gap.range glyph.line

instance (piece : Piece) : DecidablePred piece.Holds :=
  fun glyph => match piece with
    | chunk site => inferInstanceAs (Decidable (site.span.Encloses glyph.offset))
    | loose gap => inferInstanceAs (Decidable (Contains gap.range glyph.line))

structure Sound (chars : List Char) (piece : Piece) : Prop where
  upright : piece.lines.1 ≤ piece.lines.2
  within : ∀ glyph ∈ ink chars, piece.Holds glyph → Contains piece.lines glyph.line
  shows : visible piece.text.toList =
    ((ink chars).filter fun glyph => piece.Holds glyph).map Glyph.char

def Apart : Piece → Piece → Prop
  | chunk left, chunk right =>
      (left.span.endByte ≤ right.span.startByte ∧
          left.construct.chunk.startLine ≤ right.construct.chunk.startLine) ∨
        right.span.endByte ≤ left.span.startByte ∧
          right.construct.chunk.startLine ≤ left.construct.chunk.startLine
  | left, right => left.lines.2 < right.lines.1 ∨ right.lines.2 < left.lines.1

theorem Apart.symm (apart : Apart left right) : Apart right left := by
  cases left <;> cases right <;> exact Or.symm apart

theorem offset_lt_of_lines (soundLeft : left.Sound chars) (soundRight : right.Sound chars)
    (before : left.Before right)
    (lines : left.lines.2 < right.lines.1 ∨ right.lines.2 < left.lines.1)
    (inEarlier : earlier ∈ ink chars) (inLater : later ∈ ink chars)
    (holdsEarlier : left.Holds earlier) (holdsLater : right.Holds later) :
    earlier.offset < later.offset := by
  have starts := before_iff.mp before
  have upright := soundRight.upright
  have upper := (soundLeft.within earlier inEarlier holdsEarlier).2
  have lower := (soundRight.within later inLater holdsLater).1
  exact offset_lt_of_line_lt inEarlier inLater (by omega)

theorem offset_lt (soundLeft : left.Sound chars) (soundRight : right.Sound chars)
    (before : left.Before right) (apart : Apart left right) (inEarlier : earlier ∈ ink chars)
    (inLater : later ∈ ink chars) (holdsEarlier : left.Holds earlier)
    (holdsLater : right.Holds later) : earlier.offset < later.offset := by
  cases left with
  | loose gap =>
    cases right <;>
      exact offset_lt_of_lines soundLeft soundRight before apart inEarlier inLater holdsEarlier
        holdsLater
  | chunk site =>
    cases right with
    | loose gap =>
      exact offset_lt_of_lines soundLeft soundRight before apart inEarlier inLater holdsEarlier
        holdsLater
    | chunk other =>
      obtain ⟨-, upper⟩ : site.span.Encloses earlier.offset := holdsEarlier
      obtain ⟨lower, last⟩ : other.span.Encloses later.offset := holdsLater
      rcases apart with ⟨octets, -⟩ | ⟨octets, starts⟩
      · omega
      · -- Then the other chunk would be empty, and it holds a character.
        have lines := before_iff.mp before
        simp only [Piece.lines, Chunk.range, startByte] at lines
        omega

theorem visible_of_sorted {pieces : List Piece} (sound : ∀ piece ∈ pieces, piece.Sound chars)
    (sorted : pieces.Pairwise Before) (apart : pieces.Pairwise Apart)
    (all : ∀ glyph ∈ ink chars, ∃ piece ∈ pieces, piece.Holds glyph) :
    visible (pieces.flatMap fun piece => piece.text.toList) = visible chars := by
  have ordered : pieces.Pairwise fun left right => ∀ earlier ∈ ink chars, ∀ later ∈ ink chars,
      left.Holds earlier → right.Holds later → earlier.offset < later.offset := by
    apply (sorted.and apart).imp_of_mem
    intro left right inLeft inRight ⟨before, apart⟩ earlier inEarlier later inLater
    exact offset_lt (sound left inLeft) (sound right inRight) before apart inEarlier inLater
  calc
    _ = pieces.flatMap fun piece => visible piece.text.toList := List.filter_flatMap
    _ = pieces.flatMap fun piece =>
        ((ink chars).filter fun glyph => piece.Holds glyph).map Glyph.char :=
      List.flatMap_congr fun piece member => (sound piece member).shows
    _ = ((ink chars).filter fun glyph => ∃ piece ∈ pieces, piece.Holds glyph).map Glyph.char := by
      rw [← List.map_flatMap, flatMap_filter_ink ordered]
    _ = (ink chars).map Glyph.char := by
      rw [List.filter_eq_self.mpr (by simpa using all)]
    _ = visible chars := map_char_inkFrom 0 1 chars

variable {rules : WalkRules} {tree : SyntaxTree} {source : String} {site : Site} {gap : Gap}
  {sites : List Site} {ranges : List (Nat × Nat)}

theorem sound_chunk (octets : rules.source = source.toUTF8)
    (placed : tree.Everywhere (Placed source.toList))
    (nested : tree.Everywhere (Laid Span.startByte Span.endByte))
    (member : site ∈ Walk.sites rules tree) : (chunk site).Sound source.toList where
  upright := upright_of_site placed nested member
  within := fun _ => line_of_site placed member
  shows := visible_site octets placed nested member

theorem sound_loose (member : gap ∈ Gap.find ranges source true) :
    (loose gap).Sound source.toList where
  upright := (Gap.lines_of_mem_find member).2.1
  within := fun _ _ inside => inside
  shows := (Gap.lines_of_mem_find member).2.2

theorem gap_apart_from_range {range : Nat × Nat} (upright : range.1 ≤ range.2)
    (listed : range ∈ ranges) (member : gap ∈ Gap.find ranges source true) :
    range.2 < gap.startLine ∨ gap.endLine < range.1 := by
  have nonempty := (Gap.lines_of_mem_find member).2.1
  have outside (line : Nat) (inside : Contains gap.range line) : ¬ Contains range line :=
    ((Gap.exists_gap_iff ranges source line).mp ⟨gap, member, inside⟩).2 range listed
  -- If neither lies before the other, the one that starts later starts inside the other.
  by_contra overlap
  apply outside (max range.1 gap.startLine)
  · simp only [Contains, Gap.range]
    omega
  · simp only [Contains]
    omega

theorem pieces_apart (upright : ∀ range ∈ ranges, range.1 ≤ range.2)
    (covered : ∀ site ∈ sites, site.construct.chunk.range ∈ ranges)
    (ordered : sites.Pairwise fun earlier later =>
      earlier.span.endByte ≤ later.span.startByte ∧
        earlier.construct.chunk.startLine ≤ later.construct.chunk.startLine) :
    (sites.map chunk ++ (Gap.find ranges source true).map loose).Pairwise Apart := by
  refine List.pairwise_append.mpr ⟨?_, ?_, ?_⟩
  · exact List.pairwise_map.mpr (ordered.imp .inl)
  · apply List.pairwise_map.mpr
    apply (Gap.find_separated upright source true).imp
    intro earlier later separated
    exact .inl (Nat.lt_of_succ_lt separated)
  · intro left inSites right inGaps
    obtain ⟨site, member, rfl⟩ := List.mem_map.mp inSites
    obtain ⟨gap, found, rfl⟩ := List.mem_map.mp inGaps
    have listed := covered site member
    exact gap_apart_from_range (upright _ listed) listed found

end Piece

namespace Chunker

variable {chunker : Chunker} {parse : SyntaxParser} {source : String} {language : Language}
  {tree : SyntaxTree} {inventory : Inventory}

def survivingSites (chunker : Chunker) (source : String) (language : Language)
    (tree : SyntaxTree) : List Site :=
  survivors Site.construct (sites (chunker.rules source language) tree)

theorem chunks_perm_survivingSites (parsed : parse source language = some tree)
    (done : (chunker.ofText parse source language).result = .ok inventory) :
    inventory.chunks.Perm ((chunker.survivingSites source language tree).map fun site =>
      site.construct.chunk) := by
  obtain ⟨tree', parsed', finished, complete⟩ := finished_of_ok done
  obtain rfl : tree = tree' := Option.some.inj (parsed.symm.trans parsed')
  have filled := (filledBy_of_done finished).chunks_perm
  rw [← map_construct_sites, ← map_survivors, List.map_map] at filled
  rw [complete]
  exact filled

/-- Where no line of a surviving chunk shows anything outside the surviving nodes, the chunks and
the gaps in source order show what the source shows. -/
theorem text_conserved (chunker : Chunker) (parse : SyntaxParser) (source : String)
    (language : Language) (tree : SyntaxTree) (inventory : Inventory)
    (parsed : parse source language = some tree)
    (nested : tree.Everywhere (Laid Span.startByte Span.endByte))
    (placed : tree.Everywhere (Placed source.toList))
    (done : (chunker.ofText parse source language).result = .ok inventory)
    (alone : ∀ glyph ∈ ink source.toList,
      (∃ chunk ∈ inventory.chunks, Contains chunk.range glyph.line) →
        ∃ site ∈ chunker.survivingSites source language tree, site.span.Encloses glyph.offset) :
    let sites := chunker.survivingSites source language tree
    let gaps := Gap.find inventory.lineRanges source true
    inventory.chunks.Perm (sites.map fun site => site.construct.chunk) ∧
      visible ((Piece.listing sites gaps).flatMap fun piece => piece.text.toList) =
        visible source.toList := by
  intro survivors gaps
  have chunks := chunks_perm_survivingSites parsed done
  have kept : survivors.Sublist (sites (chunker.rules source language) tree) :=
    survivors_sublist _ _
  have covered : ∀ site ∈ survivors, site.construct.chunk.range ∈ inventory.lineRanges := by
    intro site member
    exact List.mem_map_of_mem (chunks.mem_iff.mpr (List.mem_map_of_mem member))
  have upright : ∀ range ∈ inventory.lineRanges, range.1 ≤ range.2 := by
    apply upright_lineRanges
    intro chunk member
    obtain ⟨site, survives, rfl⟩ := List.mem_map.mp (chunks.mem_iff.mp member)
    exact upright_of_site placed nested (kept.subset survives)
  have sorted : (Piece.listing survivors gaps).Perm
      (survivors.map .chunk ++ gaps.map .loose) := List.perm_insertionSort _ _
  have member_iff (piece : Piece) : piece ∈ Piece.listing survivors gaps ↔
      (∃ site ∈ survivors, .chunk site = piece) ∨ ∃ gap ∈ gaps, .loose gap = piece := by
    rw [sorted.mem_iff, List.mem_append, List.mem_map, List.mem_map]
  refine ⟨chunks, Piece.visible_of_sorted ?_ (List.pairwise_insertionSort _ _) ?_ ?_⟩
  · intro piece member
    rcases (member_iff piece).mp member with ⟨site, survives, rfl⟩ | ⟨gap, found, rfl⟩
    · exact Piece.sound_chunk rfl placed nested (kept.subset survives)
    · exact Piece.sound_loose found
  -- Sorting moves pieces past each other, but it keeps them apart.
  · apply (sorted.pairwise_iff fun apart => apart.symm).mpr
    exact Piece.pieces_apart upright covered ((sites_in_order placed nested).sublist kept)
  · intro glyph seen
    by_cases inChunk : ∃ chunk ∈ inventory.chunks, Contains chunk.range glyph.line
    · obtain ⟨site, survives, encloses⟩ := alone glyph seen inChunk
      exact ⟨.chunk site, (member_iff _).mpr (.inl ⟨site, survives, rfl⟩), encloses⟩
    · have free : ∀ range ∈ inventory.lineRanges, ¬ Contains range glyph.line := by
        simpa [lineRanges] using inChunk
      obtain ⟨gap, found, inside⟩ := (Gap.exists_gap_iff _ source _).mpr ⟨line_of_ink seen, free⟩
      exact ⟨.loose gap, (member_iff _).mpr (.inr ⟨gap, found, rfl⟩), inside⟩

-- The first function lost its place to the second, so its line is loose code now.
def neighbourInventory : Inventory :=
  { Inventory.empty with
    functions := (Roster.empty.insert "f" ⟨"fn f() \x7b\n\x7d", 2, 3⟩).insert "é" ⟨"fn é() {}", 3, 3⟩
    otherBlocks := ["fn f() {}"] }

theorem text_conserved_neighbours :
    (standard.ofText (fun _ _ => some neighbours) neighbourSource .rust).result =
        .ok neighbourInventory ∧
      neighbours.Everywhere (Laid Span.startByte Span.endByte) ∧
      neighbours.Everywhere (Placed neighbourSource.toList) ∧
      visible ((Piece.listing (standard.survivingSites neighbourSource .rust neighbours)
        (Gap.find neighbourInventory.lineRanges neighbourSource true)).flatMap fun piece =>
          piece.text.toList) = "fnf(){}fnf(){}fné(){}".toList := by
  have done : (standard.ofText (fun _ _ => some neighbours) neighbourSource .rust).result =
      .ok neighbourInventory := by
    simp only [ofText, ofTree, walk_eq_follow]
    decide +kernel
  have nested : neighbours.Everywhere (Laid Span.startByte Span.endByte) := by decide +kernel
  have placed : neighbours.Everywhere (Placed neighbourSource.toList) := by decide +kernel
  have conserved := (text_conserved standard (fun _ _ => some neighbours) neighbourSource .rust
    neighbours neighbourInventory rfl nested placed done (by decide +kernel)).2
  refine ⟨done, nested, placed, conserved.trans ?_⟩
  decide +kernel

end Chunker

end CodeInventory
