import CodeInventory.Proofs.SourceOrder
import CodeInventory.Proofs.Utf8

set_option autoImplicit false

namespace CodeInventory

open Inventory SyntaxTree

theorem Marker.hasMark_of_bracket {chars : List Char} (bracket : '<' ∈ chars) : hasMark chars := by
  induction chars with
  | nil => cases bracket
  | cons c rest ih =>
    rcases List.mem_cons.mp bracket with rfl | later
    · simp [hasMark, startsWithMark, plainMarks]
    · simp [hasMark, ih later]

theorem Construct.category_of_component {construct : Construct}
    (definition : construct.kind = .functionLike ∨ construct.kind = .classLike)
    (component : Marker.isComponent construct.chunk.code) :
    (construct.category = .hooks ↔
        construct.kind = .functionLike ∧ Marker.isHook construct.entryName) ∧
      (construct.category = .hooks ∨ construct.category = .components) := by
  rcases definition with function | classLike
  · by_cases hook : Marker.isHook construct.entryName <;>
      simp [category, function, hook, component]
  · simp [category, classLike, component]

namespace SyntaxTree

variable {outer inner : SyntaxTree} {source : ByteArray}

def isMarkup (tree : SyntaxTree) : Bool :=
  ["jsx_element", "jsx_self_closing_element"].elem tree.kind

def Bracketed (source : ByteArray) (node : SyntaxTree) : Prop :=
  node.isMarkup → 0x3C ∈ node.octets source

instance (source : ByteArray) : DecidablePred (Bracketed source) :=
  fun _ => inferInstanceAs (Decidable (_ → _))

theorem octets_eq_drop_take (tree : SyntaxTree) (source : ByteArray) :
    tree.octets source =
      (source.data.toList.take tree.span.endByte).drop tree.span.startByte := by
  rw [octets, ByteArray.data_extract, Array.toList_extract, List.extract_eq_take_drop,
    List.drop_take]

theorem octets_subset (first : outer.span.startByte ≤ inner.span.startByte)
    (last : inner.span.endByte ≤ outer.span.endByte) (source : ByteArray) :
    inner.octets source ⊆ outer.octets source := by
  rw [octets_eq_drop_take, octets_eq_drop_take]
  have shorter := List.drop_sublist_drop_left (source.data.toList.take inner.span.endByte) first
  have wider := (List.take_prefix_take_left (l := source.data.toList) last).sublist.drop
    outer.span.startByte
  exact (shorter.trans wider).subset

theorem isComponent_text (bracket : 0x3C ∈ outer.octets source) :
    Marker.isComponent (outer.text source) := by
  have read : some '<' ∈ Text.decode (outer.octets source) :=
    Text.mem_decodeFrom_of_ascii (by decide) (by simp) bracket
  rw [Marker.isComponent, text, Text.decodeLenient, String.toList_ofList]
  exact Marker.hasMark_of_bracket (List.mem_map.mpr ⟨_, read, rfl⟩)

end SyntaxTree

namespace Walk

variable {rules : WalkRules} {tree node : SyntaxTree} {address below : Address}
  {construct : Construct}

-- The nodes whose constructs a walk entered: so many as it recorded, of those it can reach.
def entered (rules : WalkRules) (before : Inventory) (tree : SyntaxTree) : List Address :=
  ((beforeHalt rules tree).filter fun address => Topmost rules tree address).take
    (walk rules before tree).recorded.length

theorem entered_sublist (rules : WalkRules) (before : Inventory) (tree : SyntaxTree) :
    (entered rules before tree).Sublist (topmost rules tree) :=
  (List.take_sublist _ _).trans ((List.takeWhile_sublist _).filter _)

theorem constructsAt_take (addresses : List Address)
    (constructs : ∀ address ∈ addresses, (constructAt? rules tree address).isSome) (n : Nat) :
    constructsAt rules tree (addresses.take n) = (constructsAt rules tree addresses).take n := by
  induction addresses generalizing n with
  | nil => simp [constructsAt]
  | cons address rest ih =>
    cases n with
    | zero => rfl
    | succ n =>
      obtain ⟨here, later⟩ := List.forall_mem_cons.mp constructs
      obtain ⟨construct, found⟩ := Option.isSome_iff_exists.mp here
      have tail := ih later n
      unfold constructsAt at tail ⊢
      rw [List.take_succ_cons, List.filterMap_cons_some found, List.filterMap_cons_some found,
        List.take_succ_cons, tail]

theorem constructsAt_entered (rules : WalkRules) (before : Inventory) (tree : SyntaxTree) :
    constructsAt rules tree (entered rules before tree) = (walk rules before tree).recorded := by
  have first : (walk rules before tree).recorded <+: reached rules tree :=
    (walk_recorded rules before tree).2
  rw [entered, constructsAt_take, ← reached, ← List.prefix_iff_eq_take.mp first]
  intro address member
  exact (of_decide_eq_true (List.mem_filter.mp member).2).1

theorem isComponent_of_markup (nested : tree.Everywhere (Nested Span.startByte Span.endByte))
    (bracketed : tree.Everywhere (Bracketed rules.source))
    (found : constructAt? rules tree address = some construct)
    (inside : tree.at? (address ++ below) = some node) (markup : node.isMarkup) :
    Marker.isComponent construct.chunk.code := by
  obtain ⟨outer, above, chunk⟩ := node_of_constructAt? found
  have path : outer.at? below = some node := by
    rw [at?_append, above] at inside
    exact inside
  obtain ⟨first, last⟩ := Nested.within (nested.below above) path
  have bracket := octets_subset first last rules.source (bracketed.at inside markup)
  rw [chunk]
  exact isComponent_text bracket

/-- Where nodes lie inside their parents and markup has its bracket, a function or class that a walk
entered, in any language, and that has markup anywhere inside is a hook by its name or else a
component. The markup itself is not entered. -/
theorem markup_inside_decides_slot (rules : WalkRules) (before : Inventory) (tree : SyntaxTree)
    (nested : tree.Everywhere (Nested Span.startByte Span.endByte))
    (bracketed : tree.Everywhere (Bracketed rules.source)) :
    let outcome := walk rules before tree
    let addresses := entered rules before tree
    constructsAt rules tree addresses = outcome.recorded ∧
      FilledBy before outcome.inventory outcome.recorded ∧
      ∀ address ∈ addresses, ∀ construct, constructAt? rules tree address = some construct →
        construct.kind = .functionLike ∨ construct.kind = .classLike →
        ∀ below ≠ [], ∀ node, tree.at? (address ++ below) = some node → node.isMarkup →
          (construct.category = .hooks ↔
              construct.kind = .functionLike ∧ Marker.isHook construct.entryName) ∧
            (construct.category = .hooks ∨ construct.category = .components) ∧
            (outcome.inventory.chunkUnder? construct.category construct.entryName).isSome ∧
            address ++ below ∉ addresses := by
  intro outcome addresses
  have recorded : constructsAt rules tree addresses = outcome.recorded :=
    constructsAt_entered rules before tree
  have filled : FilledBy before outcome.inventory outcome.recorded :=
    (walk_recorded rules before tree).1
  refine ⟨recorded, filled, ?_⟩
  intro address member construct found definition below deeper node inside markup
  have component := isComponent_of_markup nested bracketed found inside markup
  obtain ⟨hooks, slot⟩ := Construct.category_of_component definition component
  refine ⟨hooks, slot, ?_, ?_⟩
  · have keyed : construct.category ∈ Category.keyed := by
      rcases slot with hook | component <;> simp [Category.keyed, *]
    have listed : construct ∈ outcome.recorded :=
      recorded ▸ List.mem_filterMap.mpr ⟨address, member, found⟩
    rw [filled.entries _ keyed, Option.isSome_or, Bool.or_eq_true]
    exact .inl ((isSome_latest?_iff _ _ _).mpr ⟨construct, listed, rfl, rfl⟩)
  · intro member'
    have top := (entered_sublist rules before tree).subset member'
    have exposed : Exposed rules tree (address ++ below) :=
      (of_decide_eq_true (List.mem_filter.mp top).2).2
    rw [exposed_append exposed deeper] at found
    cases found

-- The second element follows an octet that starts a longer character.
def markupSource : ByteArray :=
  "function useP() \x7b return <p/>; \x7d\nclass Q \x7b r() \x7b return ".toUTF8 ++ ⟨#[0xE2]⟩ ++
    "<p/>; \x7d \x7d\n".toUTF8

def markupTree : SyntaxTree :=
  .node ⟨"program", none, true, ⟨0, 67, 0, 0, 2, 0⟩⟩
    [.node ⟨"function_declaration", none, true, ⟨0, 32, 0, 0, 0, 32⟩⟩
        [.node ⟨"identifier", some "name", true, ⟨9, 13, 0, 9, 0, 13⟩⟩ [],
          .node ⟨"statement_block", some "body", true, ⟨16, 32, 0, 16, 0, 32⟩⟩
            [.node ⟨"return_statement", none, true, ⟨18, 30, 0, 18, 0, 30⟩⟩
              [.node ⟨"jsx_self_closing_element", none, true, ⟨25, 29, 0, 25, 0, 29⟩⟩ []]]],
      .node ⟨"class_declaration", none, true, ⟨33, 66, 1, 0, 1, 33⟩⟩
        [.node ⟨"type_identifier", some "name", true, ⟨39, 40, 1, 6, 1, 7⟩⟩ [],
          .node ⟨"class_body", some "body", true, ⟨41, 66, 1, 8, 1, 33⟩⟩
            [.node ⟨"method_definition", none, true, ⟨43, 64, 1, 10, 1, 31⟩⟩
              [.node ⟨"property_identifier", some "name", true, ⟨43, 44, 1, 10, 1, 11⟩⟩ [],
                .node ⟨"statement_block", some "body", true, ⟨47, 64, 1, 14, 1, 31⟩⟩
                  [.node ⟨"return_statement", none, true, ⟨49, 62, 1, 16, 1, 29⟩⟩
                    [.node ⟨"jsx_self_closing_element", none, true, ⟨57, 61, 1, 24, 1, 28⟩⟩
                      []]]]]]]

def markupRules : WalkRules :=
  ⟨.tsx, markupSource, .error, 4⟩

def markupHook : Construct :=
  ⟨.functionLike, some "useP", ⟨"function useP() \x7b return <p/>; \x7d", 1, 1⟩⟩

def markupClass : Construct :=
  ⟨.classLike, some "Q", ⟨"class Q \x7b r() \x7b return \uFFFD<p/>; \x7d \x7d", 2, 2⟩⟩

theorem markup_inside_decides_slot_undecodable :
    markupTree.Everywhere (Nested Span.startByte Span.endByte) ∧
      markupTree.Everywhere (Bracketed markupSource) ∧
      entered markupRules .empty markupTree = [[0], [1]] ∧ markupHook.category = .hooks ∧
      (markupClass.category = .hooks ∨ markupClass.category = .components) ∧
      [1, 1, 0, 1, 0, 0] ∉ entered markupRules .empty markupTree := by
  have nested : markupTree.Everywhere (Nested Span.startByte Span.endByte) := by decide +kernel
  have bracketed : markupTree.Everywhere (Bracketed markupSource) := by decide +kernel
  have both : entered markupRules .empty markupTree = [[0], [1]] := by
    rw [entered, walk_eq_follow]
    decide +kernel
  obtain ⟨-, -, slots⟩ := markup_inside_decides_slot markupRules .empty markupTree nested bracketed
  have hook := slots [0] (by simp [both]) markupHook (by decide +kernel) (.inl rfl) [1, 0, 0]
    (by simp) _ rfl rfl
  have classLike := slots [1] (by simp [both]) markupClass (by decide +kernel) (.inr rfl)
    [1, 0, 1, 0, 0] (by simp) _ rfl rfl
  exact ⟨nested, bracketed, both, hook.1.mpr ⟨rfl, by decide⟩, classLike.2.1, classLike.2.2.2⟩

end Walk

end CodeInventory
