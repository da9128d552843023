import CodeInventory.Proofs.LineAccounting

set_option autoImplicit false

namespace CodeInventory

open Walk

def Inventory.withoutText (inventory : Inventory) : Inventory :=
  { inventory with otherBlocks := [] }

@[simp]
theorem Inventory.lineRanges_withoutText (inventory : Inventory) :
    inventory.withoutText.lineRanges = inventory.lineRanges :=
  rfl

theorem Walk.topmost_of_same_input {first second : WalkRules}
    (sameLanguage : first.language = second.language) (sameSource : first.source = second.source)
    (tree : SyntaxTree) :
    constructsAt first tree (topmost first tree) =
      constructsAt second tree (topmost second tree) := by
  obtain ⟨language, source, policy, maxDepth⟩ := first
  obtain ⟨language', source', policy', maxDepth'⟩ := second
  cases sameLanguage
  cases sameSource
  rfl

theorem Walk.inventory_of_same_input {first second : WalkRules} {before : Inventory}
    {tree : SyntaxTree} (sameLanguage : first.language = second.language)
    (sameSource : first.source = second.source)
    (firstDone : (walk first before tree).halt = none)
    (secondDone : (walk second before tree).halt = none) :
    (walk first before tree).inventory = (walk second before tree).inventory := by
  -- Finished walks have met no collision and no node too deep, so nothing else made a difference.
  apply (filledBy_of_done firstDone).unique
  rw [topmost_of_same_input sameLanguage sameSource]
  exact filledBy_of_done secondDone

namespace Chunker

variable {first second chunker : Chunker} {parse : SyntaxParser} {source : String}
  {language : Language} {firstInventory secondInventory inventory : Inventory}

theorem otherBlocks_of_ok
    (done : (chunker.ofText parse source language).result = .ok inventory) :
    inventory.otherBlocks =
      ((Gap.find inventory.lineRanges source true).map Gap.text).filter fun text =>
        chunker.config.emitBlankGaps || text ≠ "" := by
  obtain ⟨tree, -, -, complete⟩ := finished_of_ok done
  have texts : inventory.otherBlocks =
      Gap.texts inventory.lineRanges source chunker.config.emitBlankGaps := by
    rw [complete]
    rfl
  rw [texts, Gap.texts, Gap.find_eq_filter, List.filter_map]
  rfl

theorem slots_of_ok
    (firstDone : (first.ofText parse source language).result = .ok firstInventory)
    (secondDone : (second.ofText parse source language).result = .ok secondInventory) :
    firstInventory.withoutText = secondInventory.withoutText := by
  obtain ⟨tree, parsed, finished, rfl⟩ := finished_of_ok firstDone
  obtain ⟨tree', parsed', finished', rfl⟩ := finished_of_ok secondDone
  obtain rfl : tree = tree' := Option.some.inj (parsed.symm.trans parsed')
  have same : (walk (first.rules source language) .empty tree).inventory =
      (walk (second.rules source language) .empty tree).inventory :=
    inventory_of_same_input rfl rfl finished finished'
  simp only [complete, Inventory.withoutText, same]

/-- Two runs on one source that both succeed fill the nine slots alike, and the loose text differs
at most in the empty texts. -/
theorem settings_decide_success_only (first second : Chunker) (parse : SyntaxParser)
    (source : String) (language : Language) (firstInventory secondInventory : Inventory)
    (firstDone : (first.ofText parse source language).result = .ok firstInventory)
    (secondDone : (second.ofText parse source language).result = .ok secondInventory) :
    firstInventory.withoutText = secondInventory.withoutText ∧
      firstInventory.otherBlocks.filter (· ≠ "") = secondInventory.otherBlocks.filter (· ≠ "") ∧
      (first.config.emitBlankGaps = second.config.emitBlankGaps →
        firstInventory.otherBlocks = secondInventory.otherBlocks) ∧
      (first.config.emitBlankGaps = false → "" ∉ firstInventory.otherBlocks) := by
  have slots := slots_of_ok firstDone secondDone
  have ranges : firstInventory.lineRanges = secondInventory.lineRanges := by
    rw [← Inventory.lineRanges_withoutText, slots, Inventory.lineRanges_withoutText]
  have firstBlocks := otherBlocks_of_ok firstDone
  have secondBlocks := otherBlocks_of_ok secondDone
  rw [ranges] at firstBlocks
  refine ⟨slots, ?_, ?_, ?_⟩
  · rw [firstBlocks, secondBlocks, List.filter_filter, List.filter_filter]
    apply List.filter_congr
    intro text _
    cases first.config.emitBlankGaps <;> cases second.config.emitBlankGaps <;> simp
  · intro same
    rw [firstBlocks, secondBlocks, same]
  · intro dropped
    rw [firstBlocks, dropped]
    simp

def apartSource : String :=
  "fn f() {}\n\nfn g() {}\n"

def apart : SyntaxTree :=
  .node ⟨"source_file", none, true, ⟨0, 21, 0, 0, 3, 0⟩⟩
    [.node ⟨"function_item", none, true, ⟨0, 9, 0, 0, 0, 9⟩⟩
        [.node ⟨"identifier", some "name", true, ⟨3, 4, 0, 3, 0, 4⟩⟩ []],
      .node ⟨"function_item", none, true, ⟨11, 20, 2, 0, 2, 9⟩⟩
        [.node ⟨"identifier", some "name", true, ⟨14, 15, 2, 3, 2, 4⟩⟩ []]]

def narrow : Chunker :=
  ⟨⟨[" Rust "], .error, 1, true⟩, by decide⟩

def apartInventory (blocks : List String) : Inventory :=
  { Inventory.empty with
    functions := (Roster.empty.insert "f" ⟨"fn f() {}", 1, 1⟩).insert "g" ⟨"fn g() {}", 3, 3⟩
    otherBlocks := blocks }

theorem settings_decide_success_only_apart :
    (standard.ofText (fun _ _ => some apart) apartSource .rust).result = .ok (apartInventory []) ∧
      (narrow.ofText (fun _ _ => some apart) apartSource .rust).result =
        .ok (apartInventory [""]) ∧
      (apartInventory []).otherBlocks.filter (· ≠ "") =
        (apartInventory [""]).otherBlocks.filter (· ≠ "") ∧
      "" ∉ (apartInventory []).otherBlocks := by
  have lenient : (standard.ofText (fun _ _ => some apart) apartSource .rust).result =
      .ok (apartInventory []) := by
    simp only [ofText, ofTree, walk_eq_follow]
    decide +kernel
  have strict : (narrow.ofText (fun _ _ => some apart) apartSource .rust).result =
      .ok (apartInventory [""]) := by
    simp only [ofText, ofTree, walk_eq_follow]
    decide +kernel
  obtain ⟨-, sameTexts, -, noneEmpty⟩ := settings_decide_success_only standard narrow
    (fun _ _ => some apart) apartSource .rust _ _ lenient strict
  exact ⟨lenient, strict, sameTexts, noneEmpty rfl⟩

end Chunker

end CodeInventory
