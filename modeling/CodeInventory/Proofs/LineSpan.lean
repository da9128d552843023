import CodeInventory.Proofs.GapText
import CodeInventory.Proofs.Sites

set_option autoImplicit false

namespace CodeInventory

namespace Text

variable {text : String} {before after : List Char} {c : Char} {offset first last line : Nat}

theorem length_extendFirst {pieces : List (List Char)} (nonempty : pieces ≠ []) (c : Char) :
    (extendFirst c pieces).length = pieces.length := by
  cases pieces with
  | nil => exact absurd rfl nonempty
  | cons piece rest => rfl

theorem length_lines_concat (inside : List Char) (last : Char) :
    (lines (inside ++ [last])).length = inside.count '\n' + 1 := by
  induction inside with
  | nil => by_cases feed : last = '\n' <;> simp [lines, LineScan.step, feed, extendFirst]
  | cons c rest ih =>
    have nonempty : lines (rest ++ [last]) ≠ [] := List.ne_nil_of_length_eq_add_one ih
    rw [List.cons_append]
    rcases lines_cons c (rest ++ [last]) with ⟨rfl, same⟩ | ⟨other, -, same⟩ | ⟨other, same⟩
    · rw [same, List.length_cons, ih, List.count_cons_self]
    · rw [same, ih, List.count_cons_of_ne other]
    · rw [same, length_extendFirst nonempty, ih, List.count_cons_of_ne other]

theorem count_feed_lt_length_lines {chars : List Char} (split : chars = before ++ c :: after) :
    before.count '\n' < (lines chars).length := by
  obtain ⟨front, final, whole⟩ : ∃ front final, c :: after = front ++ [final] := by
    rcases List.eq_nil_or_concat (c :: after) with nothing | ⟨front, final, whole⟩
    · cases nothing
    · exact ⟨front, final, whole.trans List.concat_eq_append⟩
  rw [split, whole, ← List.append_assoc, length_lines_concat, List.count_append]
  omega

theorem feed_not_mem_utf8EncodeChar (other : c ≠ '\n') : 0x0A ∉ String.utf8EncodeChar c := by
  have value : c.val.toNat ≠ 10 := fun same => other (Char.ext (UInt32.toNat_inj.mp same))
  -- The octets of a character that takes several are all too large.
  have octet {v : Nat} (bound : v < 0x100) (same : (0x0A : UInt8) = UInt8.ofNat v) : v = 10 := by
    rw [← toNat_octet bound, ← same]
    rfl
  fun_cases String.utf8EncodeChar c
  all_goals
    simp only [List.mem_cons, List.not_mem_nil, or_false, not_or]
    grind

def lineOfOctet (text : String) (offset : Nat) : Nat :=
  ((octets text).take offset).count 0x0A + 1

theorem count_feed_encode (chars : List Char) : (encode chars).count 0x0A = chars.count '\n' := by
  induction chars with
  | nil => rfl
  | cons c rest ih =>
    rw [encode_cons, List.count_append, ih]
    by_cases feed : c = '\n'
    · subst feed
      rw [List.count_cons_self, Nat.add_comm]
      rfl
    · rw [List.count_eq_zero_of_not_mem (feed_not_mem_utf8EncodeChar feed),
        List.count_cons_of_ne feed, Nat.zero_add]

theorem lineOfOctet_width (split : text.toList = before ++ after) :
    lineOfOctet text (width before) = before.count '\n' + 1 := by
  rw [lineOfOctet, octets_eq_encode, split, encode_append, ← length_encode, List.take_left,
    count_feed_encode]

theorem lineOfOctet_within (split : text.toList = before ++ c :: after)
    (inside : offset < c.utf8Size) :
    lineOfOctet text (width before + offset) = before.count '\n' + 1 := by
  have start : (octets text).take (width before + offset) =
      encode before ++ (String.utf8EncodeChar c).take offset := by
    have within : offset ≤ (String.utf8EncodeChar c).length := by simpa using Nat.le_of_lt inside
    rw [octets_eq_encode, split, encode_append, encode_cons, ← length_encode,
      List.take_length_add_append, List.take_append_of_le_length within]
  have none : ((String.utf8EncodeChar c).take offset).count 0x0A = 0 := by
    by_cases feed : c = '\n'
    -- Nothing of the line feed stands before its only octet.
    · subst feed
      obtain rfl : offset = 0 := Nat.lt_one_iff.mp inside
      rfl
    · exact List.count_eq_zero_of_not_mem fun member =>
        feed_not_mem_utf8EncodeChar feed (List.mem_of_mem_take member)
  rw [lineOfOctet, start, List.count_append, none, count_feed_encode, Nat.add_zero]

theorem lineOfOctet_last (split : text.toList = before ++ c :: after) :
    lineOfOctet text (width (before ++ [c]) - 1) = before.count '\n' + 1 := by
  have positive := c.utf8Size_pos
  have final : width (before ++ [c]) - 1 = width before + (c.utf8Size - 1) := by
    rw [width_append, width, width]
    omega
  rw [final, lineOfOctet_within split (by omega)]

theorem lineOfOctet_mono (text : String) (ordered : first ≤ last) :
    lineOfOctet text first ≤ lineOfOctet text last := by
  have path := List.take_prefix_take_left (l := octets text) ordered
  exact Nat.add_le_add_right (path.sublist.count_le 0x0A) 1

theorem lineOfOctet_succ_le (text : String) (offset : Nat) :
    lineOfOctet text (offset + 1) ≤ lineOfOctet text offset + 1 := by
  rw [lineOfOctet, lineOfOctet, List.take_add_one, List.count_append]
  have single : (octets text)[offset]?.toList.count 0x0A ≤ 1 :=
    List.count_le_length.trans Option.length_toList_le
  omega

theorem exists_octet_of_line (text : String) (ordered : first ≤ last)
    (lower : lineOfOctet text first ≤ line) (upper : line ≤ lineOfOctet text last) :
    ∃ offset, first ≤ offset ∧ offset ≤ last ∧ lineOfOctet text offset = line := by
  induction last, ordered using Nat.le_induction with
  | base => exact ⟨first, Nat.le_refl _, Nat.le_refl _, Nat.le_antisymm lower upper⟩
  | succ last ordered ih =>
    by_cases earlier : line ≤ lineOfOctet text last
    · obtain ⟨offset, after, before, same⟩ := ih earlier
      exact ⟨offset, after, Nat.le_succ_of_le before, same⟩
    · have step := lineOfOctet_succ_le text last
      exact ⟨last + 1, Nat.le_succ_of_le ordered, Nat.le_refl _, by omega⟩

theorem between_lines_iff (text : String) {stop : Nat} (nonempty : first < stop) :
    lineOfOctet text first ≤ line ∧ line ≤ lineOfOctet text (stop - 1) ↔
      ∃ offset, (first ≤ offset ∧ offset < stop) ∧ lineOfOctet text offset = line := by
  constructor
  · rintro ⟨lower, upper⟩
    obtain ⟨offset, after, before, same⟩ :=
      exists_octet_of_line text (by omega) lower upper
    exact ⟨offset, ⟨after, by omega⟩, same⟩
  · rintro ⟨offset, ⟨after, before⟩, rfl⟩
    exact ⟨lineOfOctet_mono text after, lineOfOctet_mono text (by omega)⟩

end Text

open Text

variable {source : String} {node : SyntaxTree}

-- A line feed at the end of a node belongs to the line that it ends.
theorem SyntaxTree.Placed.split (placed : node.Placed source.toList)
    (nonempty : node.span.startByte < node.span.endByte) :
    ∃ before inside last after, source.toList = before ++ ((inside ++ [last]) ++ after) ∧
      width before = node.span.startByte ∧
      width (before ++ (inside ++ [last])) = node.span.endByte ∧
      Recognition.lineSpan node.span =
        (before.count '\n' + 1, (before ++ inside).count '\n' + 1) := by
  obtain ⟨starts, ends⟩ := placed
  obtain ⟨before, whole, after, split, first, stop, row, -⟩ :=
    starts.split_both ends (Nat.le_of_lt nonempty)
  rcases List.eq_nil_or_concat whole with rfl | ⟨inside, last, rfl⟩
  · rw [List.append_nil] at stop
    omega
  rw [List.concat_eq_append] at split stop
  refine ⟨before, inside, last, after, split, first, stop, ?_⟩
  rw [← stop] at ends
  obtain ⟨row', column⟩ := ends.place_of_prefix ⟨after, by rw [split, List.append_assoc]⟩
  rw [← List.append_assoc] at row' column
  rw [List.count_append] at row'
  have lower : before.count '\n' ≤ (before ++ inside).count '\n' :=
    (List.prefix_append before inside).sublist.count_le '\n'
  by_cases feed : last = '\n'
  · subst feed
    have start : node.span.endColumn = 0 := by
      rw [← column]
      simp [width]
    have single : ['\n'].count '\n' = 1 := rfl
    simp only [Recognition.lineSpan, start, true_and]
    rw [if_pos (by omega), row, ← row', single, Nat.add_sub_cancel]
  · have inner : node.span.endColumn ≠ 0 := fun start =>
      feed (last_of_column_zero (column.trans start))
    have none : [last].count '\n' = 0 := by simp [feed]
    simp only [Recognition.lineSpan, inner, false_and, if_false]
    rw [row, ← row', none, Nat.add_zero]

/-- The lines of a construct are those on which its text stands in the source. They are lines of the
source, as many as the text has by itself, and the text is what the source says there. -/
theorem lines_are_those_of_text (language : Language) (source : String) (depth : Nat)
    (node : SyntaxTree) (construct : Construct)
    (matched : Recognition.classify language source.toUTF8 depth node = .ok (some construct))
    (nonempty : node.span.startByte < node.span.endByte) (placed : node.Placed source.toList) :
    let chunk := construct.chunk
    octets chunk.code = node.octets source.toUTF8 ∧
      chunk.startLine = lineOfOctet source node.span.startByte ∧
      chunk.endLine = lineOfOctet source (node.span.endByte - 1) ∧
      1 ≤ chunk.startLine ∧ chunk.startLine ≤ chunk.endLine ∧
      chunk.endLine ≤ (lines source.toList).length ∧
      chunk.lineCount = (lines chunk.code.toList).length ∧
      ∀ line, Contains chunk.range line ↔
        ∃ offset, node.span.Encloses offset ∧ lineOfOctet source offset = line := by
  intro chunk
  obtain ⟨before, inside, last, after, split, first, stop, rows⟩ := placed.split nonempty
  have found : chunk = Recognition.chunkOf (node.text source.toUTF8) node.span :=
    Recognition.chunk_of_classify matched
  have octets_eq : node.octets source.toUTF8 = encode (inside ++ [last]) := by
    rw [SyntaxTree.octets, ← first, ← stop, octets_extract split]
  have code : chunk.code = String.ofList (inside ++ [last]) := by
    rw [found, Recognition.chunkOf, SyntaxTree.text, octets_eq, decodeLenient_encode]
  have startLine : chunk.startLine = before.count '\n' + 1 := by
    rw [found]
    exact congrArg Prod.fst rows
  have endLine : chunk.endLine = (before ++ inside).count '\n' + 1 := by
    rw [found]
    exact congrArg Prod.snd rows
  have lower : chunk.startLine = lineOfOctet source node.span.startByte := by
    rw [startLine, ← first, lineOfOctet_width split]
  have split' : source.toList = (before ++ inside) ++ last :: after := by simp [split]
  have upper : chunk.endLine = lineOfOctet source (node.span.endByte - 1) := by
    rw [endLine, ← stop, ← List.append_assoc, lineOfOctet_last split']
  have ordered : chunk.startLine ≤ chunk.endLine := by
    rw [lower, upper]
    exact lineOfOctet_mono source (by omega)
  refine ⟨?_, lower, upper, by omega, ordered, ?_, ?_, fun line => ?_⟩
  · rw [code, octets_eq, octets_eq_encode, String.toList_ofList]
  · rw [endLine]
    exact count_feed_lt_length_lines split'
  · rw [Chunk.lineCount, code, String.toList_ofList, length_lines_concat, startLine, endLine,
      List.count_append]
    omega
  · rw [Contains, Chunk.range, lower, upper]
    exact between_lines_iff source nonempty

def feedSource : String :=
  "é\r\nfn f() \x7b\r\n\x7d\n\nx"

def feedFunction : SyntaxTree :=
  .node ⟨"function_item", none, true, ⟨4, 16, 1, 0, 3, 0⟩⟩
    [.node ⟨"identifier", some "name", true, ⟨7, 8, 1, 3, 1, 4⟩⟩ []]

def feedConstruct : Construct :=
  ⟨.functionLike, some "f", ⟨"fn f() \x7b\r\n\x7d\n", 2, 3⟩⟩

theorem lines_are_those_of_text_feed :
    Recognition.classify .rust feedSource.toUTF8 1 feedFunction =
      .ok (some feedConstruct) ∧
      feedFunction.Placed feedSource.toList ∧ lineOfOctet feedSource 15 = 3 ∧
      (lines feedConstruct.chunk.code.toList).length = 2 ∧ (lines feedSource.toList).length = 5 := by
  have matched : Recognition.classify .rust feedSource.toUTF8 1 feedFunction =
      .ok (some feedConstruct) := by decide +kernel
  have placed : feedFunction.Placed feedSource.toList := by decide +kernel
  obtain ⟨-, -, last, -, -, -, count, -⟩ := lines_are_those_of_text .rust feedSource 1 feedFunction
    feedConstruct matched (by decide) placed
  exact ⟨matched, placed, last.symm, count.symm, by decide +kernel⟩

end CodeInventory
