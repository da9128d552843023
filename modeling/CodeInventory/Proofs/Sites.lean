import CodeInventory.Proofs.Glyphs
import CodeInventory.Proofs.SourceOrder

set_option autoImplicit false

namespace CodeInventory

open SyntaxTree Text

def Span.Encloses (span : Span) (offset : Nat) : Prop :=
  span.startByte ≤ offset ∧ offset < span.endByte

instance (span : Span) : DecidablePred span.Encloses :=
  fun _ => inferInstanceAs (Decidable (_ ∧ _))

-- Both ends of a node lie between characters, in the rows and columns of their offsets.
def SyntaxTree.Placed (chars : List Char) (node : SyntaxTree) : Prop :=
  StandsAt chars node.span.startByte node.span.startRow node.span.startColumn ∧
    StandsAt chars node.span.endByte node.span.endRow node.span.endColumn

instance (chars : List Char) : DecidablePred (Placed chars) :=
  fun _ => inferInstanceAs (Decidable (_ ∧ _))

structure Site where
  span : Span
  construct : Construct
deriving DecidableEq

namespace Walk

variable {rules : WalkRules} {tree node : SyntaxTree} {address : Address} {site : Site}
  {source : String} {glyph : Glyph}

def siteAt? (rules : WalkRules) (tree : SyntaxTree) (address : Address) : Option Site := do
  let node ← tree.at? address
  let construct ← constructAt? rules tree address
  some ⟨node.span, construct⟩

def sites (rules : WalkRules) (tree : SyntaxTree) : List Site :=
  (topmost rules tree).filterMap (siteAt? rules tree)

theorem siteAt?_eq_some_iff : siteAt? rules tree address = some site ↔
    ∃ node, tree.at? address = some node ∧ site.span = node.span ∧
      Recognition.classify rules.language rules.source address.length node =
        .ok (some site.construct) := by
  simp only [siteAt?, Option.bind_eq_bind, Option.bind_eq_some_iff, Option.some.injEq]
  constructor
  · rintro ⟨node, found, construct, matched, rfl⟩
    obtain ⟨node', found', verdict⟩ := constructAt?_eq_some_iff.mp matched
    obtain rfl : node = node' := Option.some.inj (found.symm.trans found')
    exact ⟨node, found, rfl, verdict⟩
  · rintro ⟨node, found, same, verdict⟩
    have matched := constructAt?_eq_some_iff.mpr ⟨node, found, verdict⟩
    exact ⟨node, found, site.construct, matched, by rw [← same]⟩

theorem map_construct_sites (rules : WalkRules) (tree : SyntaxTree) :
    (sites rules tree).map Site.construct = constructsAt rules tree (topmost rules tree) := by
  rw [sites, constructsAt, List.map_filterMap]
  apply List.filterMap_congr
  intro address _
  cases matched : constructAt? rules tree address with
  | none => cases at' : tree.at? address <;> simp [siteAt?, matched, at']
  | some construct =>
    obtain ⟨node, found, -⟩ := constructAt?_eq_some_iff.mp matched
    simp [siteAt?, matched, found]

theorem node_of_mem_sites (member : site ∈ sites rules tree) :
    ∃ address node, tree.at? address = some node ∧ site.span = node.span ∧
      site.construct.chunk = Recognition.chunkOf (node.text rules.source) node.span := by
  obtain ⟨address, -, found⟩ := List.mem_filterMap.mp member
  obtain ⟨node, at', same, matched⟩ := siteAt?_eq_some_iff.mp found
  exact ⟨address, node, at', same, Recognition.chunk_of_classify matched⟩

theorem lines_of_site (member : site ∈ sites rules tree) :
    site.construct.chunk.range = Recognition.lineSpan site.span := by
  obtain ⟨address, node, -, same, chunk⟩ := node_of_mem_sites member
  rw [chunk, same]
  rfl

theorem upright_of_site (placed : tree.Everywhere (Placed source.toList))
    (nested : tree.Everywhere (Laid Span.startByte Span.endByte))
    (member : site ∈ sites rules tree) :
    site.construct.chunk.startLine ≤ site.construct.chunk.endLine := by
  obtain ⟨address, node, found, same, chunk⟩ := node_of_mem_sites member
  obtain ⟨starts, ends⟩ := placed.at found
  have rows := starts.row_mono ends (nested.at found).1
  rw [chunk]
  exact (Recognition.lineSpan_ordered rows).2

theorem sites_in_order (placed : tree.Everywhere (Placed source.toList))
    (nested : tree.Everywhere (Laid Span.startByte Span.endByte)) :
    (sites rules tree).Pairwise fun earlier later =>
      earlier.span.endByte ≤ later.span.startByte ∧
        earlier.construct.chunk.startLine ≤ later.construct.chunk.startLine := by
  apply (topmost_listed rules tree).filterMap
  intro left right ⟨lower, apart⟩ earlier foundLeft later foundRight
  obtain ⟨node, at', same, matched⟩ := siteAt?_eq_some_iff.mp foundLeft
  obtain ⟨other, at'', same', matched'⟩ := siteAt?_eq_some_iff.mp foundRight
  have octets := Laid.last_le_first nested lower apart at' at''
  have upright := (nested.at at').1
  have rows := (placed.at at').1.row_mono (placed.at at'').1 (by omega)
  rw [same, same', Recognition.chunk_of_classify matched, Recognition.chunk_of_classify matched']
  refine ⟨octets, ?_⟩
  simp only [Recognition.chunkOf, Recognition.lineSpan]
  omega

theorem visible_site (octets : rules.source = source.toUTF8)
    (placed : tree.Everywhere (Placed source.toList))
    (nested : tree.Everywhere (Laid Span.startByte Span.endByte))
    (member : site ∈ sites rules tree) :
    visible site.construct.chunk.code.toList =
      ((ink source.toList).filter fun glyph => site.span.Encloses glyph.offset).map
        Glyph.char := by
  obtain ⟨address, node, found, same, chunk⟩ := node_of_mem_sites member
  obtain ⟨starts, ends⟩ := placed.at found
  obtain ⟨before, inside, after, split, first, last, -⟩ :=
    starts.split_both ends (nested.at found).1
  have text : site.construct.chunk.code = String.ofList inside := by
    rw [chunk, ← decodeLenient_extract split, first, last, ← octets]
    rfl
  rw [text, String.toList_ofList, ← map_char_filter_ink split, first, last, same]
  rfl

theorem line_of_site (placed : tree.Everywhere (Placed source.toList))
    (member : site ∈ sites rules tree) (seen : glyph ∈ ink source.toList)
    (inside : site.span.Encloses glyph.offset) :
    Contains site.construct.chunk.range glyph.line := by
  rw [lines_of_site member]
  obtain ⟨address, node, found, same, -⟩ := node_of_mem_sites member
  obtain ⟨starts, ends⟩ := placed.at found
  rw [same] at inside ⊢
  have lower := starts.line_of_ge seen inside.1
  have upper := ends.line_of_lt seen inside.2
  -- A node that ends before the first column of a row shows nothing on that row.
  by_cases above : node.span.endColumn = 0 ∧ node.span.startRow < node.span.endRow
  · rw [above.1] at ends
    have earlier := ends.line_of_lt_start seen inside.2
    simp only [Contains, Recognition.lineSpan, if_pos above]
    omega
  · simp only [Contains, Recognition.lineSpan, if_neg above]
    omega

end Walk

end CodeInventory
