import CodeInventory.Chunker
import CodeInventory.Proofs.GapSweep
import CodeInventory.Proofs.GreedyWalk

set_option autoImplicit false

namespace CodeInventory

open Walk

variable {rules : WalkRules} {tree : SyntaxTree} {address : Address} {construct : Construct}
  {chunk : Chunk} {chunker : Chunker} {parse : SyntaxParser} {source : String}
  {language : Language} {inventory : Inventory}

def SyntaxTree.Upright (tree : SyntaxTree) : Prop :=
  ∀ address ∈ tree.addresses, ∀ node ∈ tree.at? address, node.span.startRow ≤ node.span.endRow

instance : DecidablePred SyntaxTree.Upright :=
  fun _ => inferInstanceAs (Decidable (∀ _ ∈ _, _))

theorem Inventory.upright_lineRanges
    (ordered : ∀ chunk ∈ inventory.chunks, chunk.startLine ≤ chunk.endLine) :
    ∀ range ∈ inventory.lineRanges, range.1 ≤ range.2 := by
  intro range member
  obtain ⟨chunk, inChunks, rfl⟩ := List.mem_map.mp member
  exact ordered chunk inChunks

theorem Inventory.line_in_chunk_or_gap
    (ordered : ∀ chunk ∈ inventory.chunks, chunk.startLine ≤ chunk.endLine) (source : String)
    {line : Nat} (positive : 1 ≤ line) (inside : line ≤ (Text.lines source.toList).length) :
    ((∃ chunk ∈ inventory.chunks, Contains chunk.range line) ∧
        ((Gap.find inventory.lineRanges source true).countP fun gap =>
          Contains gap.range line) = 0) ∨
      ((∀ chunk ∈ inventory.chunks, ¬ Contains chunk.range line) ∧
        ((Gap.find inventory.lineRanges source true).countP fun gap =>
          Contains gap.range line) = 1) := by
  have covered : (∃ range ∈ inventory.lineRanges, Contains range line) ↔
      ∃ chunk ∈ inventory.chunks, Contains chunk.range line := by
    simp [lineRanges]
  have uncovered : (∀ range ∈ inventory.lineRanges, ¬ Contains range line) ↔
      ∀ chunk ∈ inventory.chunks, ¬ Contains chunk.range line := by
    simp [lineRanges]
  have shared := Gap.covered_or_in_single_gap (upright_lineRanges ordered) source positive inside
  rwa [covered, uncovered] at shared

theorem except_bind_eq_ok_iff {ε α β : Type} {first : Except ε α} {next : α → Except ε β}
    {result : β} :
    (first >>= next) = .ok result ↔ ∃ value, first = .ok value ∧ next value = .ok result := by
  cases first <;> simp [bind, Except.bind]

theorem SyntaxTree.text_of_read {source : ByteArray} {code : String}
    (found : tree.read source = .ok code) : code = tree.text source := by
  unfold read at found
  split at found
  next => exact (Except.ok.inj found).symm
  next => exact absurd found (by simp)

theorem Recognition.chunk_of_classify {source : ByteArray} {depth : Nat}
    (found : classify language source depth tree = .ok (some construct)) :
    construct.chunk = chunkOf (tree.text source) tree.span := by
  unfold classify at found
  split at found
  next => simp at found
  next tag _ =>
    obtain ⟨description?, -, found⟩ := except_bind_eq_ok_iff.mp found
    cases description? with
    | none => simp at found
    | some description =>
      obtain ⟨code, read, found⟩ := except_bind_eq_ok_iff.mp found
      rw [← SyntaxTree.text_of_read read, ← Option.some.inj (Except.ok.inj found)]

theorem Recognition.lineSpan_ordered {span : Span} (upright : span.startRow ≤ span.endRow) :
    1 ≤ (lineSpan span).1 ∧ (lineSpan span).1 ≤ (lineSpan span).2 := by
  by_cases above : span.endColumn = 0 ∧ span.startRow < span.endRow
  · simp only [lineSpan, if_pos above]
    omega
  · simp only [lineSpan, if_neg above]
    omega

theorem Walk.node_of_constructAt? (found : constructAt? rules tree address = some construct) :
    ∃ node, tree.at? address = some node ∧
      construct.chunk = Recognition.chunkOf (node.text rules.source) node.span := by
  obtain ⟨node, at', matched⟩ := constructAt?_eq_some_iff.mp found
  exact ⟨node, at', Recognition.chunk_of_classify matched⟩

theorem Walk.lines_of_constructAt? (upright : tree.Upright)
    (found : constructAt? rules tree address = some construct) :
    1 ≤ construct.chunk.startLine ∧ construct.chunk.startLine ≤ construct.chunk.endLine := by
  obtain ⟨node, at', chunk⟩ := node_of_constructAt? found
  have inside : address ∈ tree.addresses := by simp [SyntaxTree.mem_addresses, at']
  rw [chunk]
  exact Recognition.lineSpan_ordered (upright address inside node at')

theorem Walk.exists_construct_of_mem_chunks (done : (walk rules .empty tree).halt = none)
    (member : chunk ∈ (walk rules .empty tree).inventory.chunks) :
    ∃ address construct, constructAt? rules tree address = some construct ∧
      construct.chunk = chunk := by
  rcases (filledBy_of_done done).mem_chunks member with old | ⟨construct, recorded, same⟩
  · simp [Inventory.empty, Inventory.chunks, Inventory.rosters, Roster.empty, Roster.chunks] at old
  · obtain ⟨address, -, found⟩ := List.mem_filterMap.mp recorded
    exact ⟨address, construct, found, same⟩

namespace Chunker

theorem finished_of_ok (done : (chunker.ofText parse source language).result = .ok inventory) :
    ∃ tree, parse source language = some tree ∧
      (walk (chunker.rules source language) .empty tree).halt = none ∧
      inventory =
        chunker.complete source (walk (chunker.rules source language) .empty tree).inventory := by
  by_cases refused : !chunker.config.admits language || !language.hasGrammar
  · simp [ofText, refused, Survey.failed] at done
  · rw [ofText, if_neg refused] at done
    cases parsed : parse source language with
    | none => simp [parsed, Survey.failed] at done
    | some tree =>
      cases failed : (walk (chunker.rules source language) .empty tree).halt with
      | some halt => simp [parsed, ofTree, failed] at done
      | none =>
        simp only [parsed, ofTree, failed, Except.ok.injEq] at done
        exact ⟨tree, rfl, failed, done.symm⟩

/-- Every line of a source stands in chunks of its inventory or in a single gap, and the loose text
is that of the gaps. So a line of a construct that left the inventory again stands in a gap, unless
another chunk has it. -/
theorem every_line_accounted_for (chunker : Chunker) (parse : SyntaxParser) (source : String)
    (language : Language) (tree : SyntaxTree) (inventory : Inventory)
    (parsed : parse source language = some tree) (upright : tree.Upright)
    (done : (chunker.ofText parse source language).result = .ok inventory) :
    let lineCount := (Text.lines source.toList).length
    let gaps := Gap.find inventory.lineRanges source true
    (∀ line, 1 ≤ line → line ≤ lineCount →
        ((∃ chunk ∈ inventory.chunks, Contains chunk.range line) ∧
            (gaps.countP fun gap => Contains gap.range line) = 0) ∨
          ((∀ chunk ∈ inventory.chunks, ¬ Contains chunk.range line) ∧
            (gaps.countP fun gap => Contains gap.range line) = 1)) ∧
      inventory.otherBlocks =
        (gaps.map Gap.text).filter (fun text => chunker.config.emitBlankGaps || text ≠ "") ∧
      gaps.Pairwise (fun earlier later => earlier.endLine < later.startLine) ∧
      ∀ address construct,
        constructAt? (chunker.rules source language) tree address = some construct →
        ∀ line ≤ lineCount, Contains construct.chunk.range line →
          (∀ chunk ∈ inventory.chunks, ¬ Contains chunk.range line) →
            (gaps.countP fun gap => Contains gap.range line) = 1 := by
  intro lineCount gaps
  obtain ⟨tree', parsed', finished, complete⟩ := finished_of_ok done
  obtain rfl : tree = tree' := Option.some.inj (parsed.symm.trans parsed')
  -- The loose text is no chunk, so adding it leaves the line ranges as they were.
  have chunks : inventory.chunks =
      (walk (chunker.rules source language) .empty tree).inventory.chunks := by
    rw [complete]
    rfl
  -- A reversed range would let the sweep count a line twice, but no construct has one.
  have ordered : ∀ chunk ∈ inventory.chunks, chunk.startLine ≤ chunk.endLine := by
    intro chunk member
    rw [chunks] at member
    obtain ⟨address, construct, found, rfl⟩ := exists_construct_of_mem_chunks finished member
    exact (lines_of_constructAt? upright found).2
  refine ⟨fun line => Inventory.line_in_chunk_or_gap ordered source, ?_, ?_, ?_⟩
  · have texts : inventory.otherBlocks =
        Gap.texts inventory.lineRanges source chunker.config.emitBlankGaps := by
      rw [complete]
      rfl
    rw [texts, Gap.texts, Gap.find_eq_filter, List.filter_map]
    rfl
  · exact (Gap.find_separated (Inventory.upright_lineRanges ordered) source true).imp fun apart => by omega
  · intro address construct found line inside within uncovered
    have positive := Nat.le_trans (lines_of_constructAt? upright found).1 within.1
    rcases Inventory.line_in_chunk_or_gap ordered source positive inside with
      ⟨⟨chunk, member, covers⟩, -⟩ | ⟨-, single⟩
    · exact absurd covers (uncovered chunk member)
    · exact single

def standard : Chunker :=
  ⟨.standard, rfl⟩

def twinInventory : Inventory :=
  { Inventory.empty with
    functions := Roster.empty.insert "f" secondTwin.chunk
    otherBlocks := ["fn f() {}"] }

theorem every_line_accounted_for_twins :
    (standard.ofText (fun _ _ => some twins) twinSource .rust).result = .ok twinInventory ∧
      twins.Upright ∧
      ((Gap.find twinInventory.lineRanges twinSource true).countP fun gap =>
        Contains gap.range firstTwin.chunk.startLine) = 1 := by
  have done : (standard.ofText (fun _ _ => some twins) twinSource .rust).result =
      .ok twinInventory := by
    simp only [ofText, ofTree, walk_eq_follow]
    decide +kernel
  have upright : twins.Upright := by decide +kernel
  obtain ⟨-, -, -, reappears⟩ := every_line_accounted_for standard (fun _ _ => some twins)
    twinSource .rust twins twinInventory rfl upright done
  refine ⟨done, upright, reappears [0] firstTwin ?_ 1 ?_ ?_ ?_⟩
  · decide +kernel
  · decide
  · decide
  · decide

end Chunker

end CodeInventory
