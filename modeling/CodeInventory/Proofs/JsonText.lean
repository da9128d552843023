import CodeInventory.Json.Printer
import CodeInventory.Json.Reader
import CodeInventory.Proofs.JsonTokens

set_option autoImplicit false

namespace CodeInventory.Json

open Token

def Legible (json : Json) : Prop :=
  ∀ token ∈ json.tokens, token.Legible

instance : DecidablePred Legible := fun json =>
  List.decidableBAll Token.Legible json.tokens

theorem legible_itemTokens : (items : List Json) → (∀ item ∈ items, item.Legible) →
    ∀ token ∈ itemTokens items, token.Legible
  | [], _ => List.forall_mem_nil _
  | [item], legible => legible item List.mem_cons_self
  | item :: next :: more, legible => by
    obtain ⟨first, others⟩ := List.forall_mem_cons.mp legible
    have further := legible_itemTokens (next :: more) others
    exact List.forall_mem_append.mpr ⟨first, List.forall_mem_cons.mpr ⟨trivial, further⟩⟩

theorem legible_array {items : List Json} (legible : ∀ item ∈ items, item.Legible) :
    (array items).Legible :=
  List.forall_mem_append.mpr ⟨List.forall_mem_cons.mpr ⟨trivial, legible_itemTokens items legible⟩,
    List.forall_mem_singleton.mpr trivial⟩

theorem legible_field (key : String) {value : Json} (legible : value.Legible) :
    ∀ token ∈ .string key :: .colon :: value.tokens, token.Legible :=
  List.forall_mem_cons.mpr ⟨trivial, List.forall_mem_cons.mpr ⟨trivial, legible⟩⟩

theorem legible_fieldTokens : (fields : List (String × Json)) →
    (∀ field ∈ fields, field.2.Legible) → ∀ token ∈ fieldTokens fields, token.Legible
  | [], _ => List.forall_mem_nil _
  | [(key, value)], legible => legible_field key (legible (key, value) List.mem_cons_self)
  | (key, value) :: next :: more, legible => by
    obtain ⟨first, others⟩ := List.forall_mem_cons.mp legible
    have further := legible_fieldTokens (next :: more) others
    exact List.forall_mem_append.mpr
      ⟨legible_field key first, List.forall_mem_cons.mpr ⟨trivial, further⟩⟩

theorem legible_object {fields : List (String × Json)}
    (legible : ∀ field ∈ fields, field.2.Legible) : (object fields).Legible :=
  List.forall_mem_append.mpr
    ⟨List.forall_mem_cons.mpr ⟨trivial, legible_fieldTokens fields legible⟩,
      List.forall_mem_singleton.mpr trivial⟩

theorem separated_cons {token : Token} {rest : List Token} (separated : Separated rest)
    (apart : ∀ next ∈ rest.head?, ¬ next.isWord) : Separated (token :: rest) :=
  List.isChain_cons.mpr ⟨fun next isNext _ => apart next isNext, separated⟩

theorem separated_cons_mark {token : Token} {rest : List Token} (mark : ¬ token.isWord)
    (separated : Separated rest) : Separated (token :: rest) :=
  List.isChain_cons.mpr ⟨fun _ _ word => absurd word mark, separated⟩

-- What follows a value begins with no word, so the value's last token stands apart from it.
mutual

theorem separated_tokens {rest : List Token} (separated : Separated rest)
    (apart : ∀ next ∈ rest.head?, ¬ next.isWord) : (json : Json) → Separated (json.tokens ++ rest)
  | .null | .bool _ | .nat _ | .number _ | .string _ => separated_cons separated apart
  | .array items => by
    have closed : Separated (.closeArray :: rest) := separated_cons_mark (by decide) separated
    have body := separated_itemTokens closed (by simp [isWord]) items
    have opened : Separated (.openArray :: (itemTokens items ++ .closeArray :: rest)) :=
      separated_cons_mark (by decide) body
    simpa [tokens] using opened
  | .object fields => by
    have closed : Separated (.closeObject :: rest) := separated_cons_mark (by decide) separated
    have body := separated_fieldTokens closed (by simp [isWord]) fields
    have opened : Separated (.openObject :: (fieldTokens fields ++ .closeObject :: rest)) :=
      separated_cons_mark (by decide) body
    simpa [tokens] using opened

theorem separated_itemTokens {rest : List Token} (separated : Separated rest)
    (apart : ∀ next ∈ rest.head?, ¬ next.isWord) :
    (items : List Json) → Separated (itemTokens items ++ rest)
  | [] => separated
  | [item] => separated_tokens separated apart item
  | item :: next :: more => by
    have further := separated_itemTokens separated apart (next :: more)
    have comma : Separated (.comma :: (itemTokens (next :: more) ++ rest)) :=
      separated_cons_mark (by decide) further
    simpa [itemTokens] using separated_tokens comma (by simp [isWord]) item

theorem separated_fieldTokens {rest : List Token} (separated : Separated rest)
    (apart : ∀ next ∈ rest.head?, ¬ next.isWord) :
    (fields : List (String × Json)) → Separated (fieldTokens fields ++ rest)
  | [] => separated
  | [(key, value)] => by
    have written := separated_tokens separated apart value
    exact separated_cons_mark (by simp [isWord]) (separated_cons_mark (by simp [isWord]) written)
  | (key, value) :: next :: more => by
    have further := separated_fieldTokens separated apart (next :: more)
    have comma : Separated (.comma :: (fieldTokens (next :: more) ++ rest)) :=
      separated_cons_mark (by decide) further
    have written := separated_tokens comma (by simp [isWord]) value
    have named : Separated (.string key :: .colon :: (value.tokens ++
        .comma :: (fieldTokens (next :: more) ++ rest))) :=
      separated_cons_mark (by simp [isWord]) (separated_cons_mark (by decide) written)
    simpa [fieldTokens] using named

end

theorem spells_compact (tokens : List Token) : Spells tokens (tokens.flatMap Token.render) := by
  induction tokens with
  | nil => exact .nil
  | cons token rest ih => exact ih.token

theorem spells_newline (depth : Nat) : Spells [] (newline depth) := by
  have columns (count : Nat) : Spells [] (List.replicate count ' ') := by
    induction count with
    | zero => exact .nil
    | succ count ih => exact ih.space rfl
  exact (columns _).space rfl

theorem spells_prettyField {depth : Nat} {value : Json} (key : String)
    (written : Spells value.tokens (prettyAt depth value)) :
    Spells (.string key :: .colon :: value.tokens)
      (newline depth ++ (Token.string key).render ++ ':' :: ' ' :: prettyAt depth value) := by
  have spaced : Spells value.tokens (' ' :: prettyAt depth value) := written.space rfl
  have named := (spells_newline depth).append (Spells.single (.string key))
  simpa [render] using named.append ((Spells.single .colon).append spaced)

mutual

theorem spells_prettyAt (depth : Nat) : (json : Json) → Spells json.tokens (prettyAt depth json)
  | .null => Spells.single .null
  | .bool value => Spells.single (.bool value)
  | .nat value => Spells.single (.nat value)
  | .number literal => Spells.single (.number literal)
  | .string value => Spells.single (.string value)
  | .array [] => (Spells.single .openArray).append (Spells.single .closeArray)
  | .array (item :: more) => by
    have body := (spells_prettyItems (depth + 1) (item :: more)).append (spells_newline depth)
    simpa [tokens, prettyAt, render] using
      (Spells.single .openArray).append (body.append (Spells.single .closeArray))
  | .object [] => (Spells.single .openObject).append (Spells.single .closeObject)
  | .object (field :: more) => by
    have body := (spells_prettyFields (depth + 1) (field :: more)).append (spells_newline depth)
    simpa [tokens, prettyAt, render] using
      (Spells.single .openObject).append (body.append (Spells.single .closeObject))

theorem spells_prettyItems (depth : Nat) :
    (items : List Json) → Spells (itemTokens items) (prettyItems depth items)
  | [] => .nil
  | [item] => (spells_newline depth).append (spells_prettyAt depth item)
  | item :: next :: more => by
    have first := (spells_newline depth).append (spells_prettyAt depth item)
    have further := (Spells.single .comma).append (spells_prettyItems depth (next :: more))
    simpa [itemTokens, prettyItems, render] using first.append further

theorem spells_prettyFields (depth : Nat) :
    (fields : List (String × Json)) → Spells (fieldTokens fields) (prettyFields depth fields)
  | [] => .nil
  | [(key, value)] => spells_prettyField key (spells_prettyAt depth value)
  | (key, value) :: next :: more => by
    have first := spells_prettyField key (spells_prettyAt depth value)
    have further := (Spells.single .comma).append (spells_prettyFields depth (next :: more))
    simpa [fieldTokens, prettyFields, render] using first.append further

end

open Build

theorem step?_itemOrEnd {token : Token} (item : token ≠ .closeArray) (stack : List Frame) :
    step? ⟨.itemOrEnd, stack⟩ token = step? ⟨.value, .array [] :: stack⟩ token := by
  cases token <;> first | rfl | exact absurd rfl item

theorem step?_keyOrEnd (key : String) (stack : List Frame) :
    step? ⟨.keyOrEnd, stack⟩ (.string key) = step? ⟨.key [], stack⟩ (.string key) :=
  rfl

theorem itemTokens_eq_cons (item : Json) (more : List Json) :
    ∃ first rest, itemTokens (item :: more) = first :: rest ∧ first ≠ .closeArray := by
  cases item <;> cases more <;> simp [itemTokens, tokens]

theorem fieldTokens_eq_cons (field : String × Json) (more : List (String × Json)) :
    ∃ rest, fieldTokens (field :: more) = .string field.1 :: rest := by
  cases more <;> simp [fieldTokens]

theorem reads_cons {build next : Build} {token : Token} (read : step? build token = some next)
    (rest : List Token) : (token :: rest).foldlM step? build = rest.foldlM step? next := by
  rw [List.foldlM_cons, read]
  rfl

-- The values of a container are gathered latest first on its frame.
mutual

theorem reads_tokens (stack : List Frame) (rest : List Token) :
    (json : Json) → (json.tokens ++ rest).foldlM step? ⟨.value, stack⟩ =
      rest.foldlM step? ⟨.after json, stack⟩
  | .null | .bool _ | .nat _ | .number _ | .string _ => rfl
  | .array [] => rfl
  | .array (item :: more) => by
    have items := reads_itemTokens stack rest [] (item :: more) (List.cons_ne_nil _ _)
    obtain ⟨first, others, written, notEnd⟩ := itemTokens_eq_cons item more
    rw [written, List.cons_append, List.foldlM_cons, ← step?_itemOrEnd notEnd] at items
    rw [tokens, written, List.cons_append, List.cons_append, reads_cons rfl]
    simpa using items
  | .object [] => rfl
  | .object (field :: more) => by
    have fields := reads_fieldTokens stack rest [] (field :: more) (List.cons_ne_nil _ _)
    obtain ⟨others, written⟩ := fieldTokens_eq_cons field more
    rw [written, List.cons_append, List.foldlM_cons, ← step?_keyOrEnd] at fields
    rw [tokens, written, List.cons_append, List.cons_append, reads_cons rfl]
    simpa using fields

theorem reads_itemTokens (stack : List Frame) (rest : List Token) (before : List Json) :
    (items : List Json) → items ≠ [] →
      (itemTokens items ++ .closeArray :: rest).foldlM step? ⟨.value, .array before :: stack⟩ =
        rest.foldlM step? ⟨.after (.array (before.reverse ++ items)), stack⟩
  | [], empty => absurd rfl empty
  | [item], _ => by
    rw [itemTokens, reads_tokens, reads_cons rfl, List.reverse_cons]
  | item :: next :: more, _ => by
    have further :=
      reads_itemTokens stack rest (item :: before) (next :: more) (List.cons_ne_nil _ _)
    simp only [itemTokens, List.append_assoc, List.cons_append]
    rw [reads_tokens, reads_cons rfl, further]
    simp

theorem reads_fieldTokens (stack : List Frame) (rest : List Token)
    (before : List (String × Json)) :
    (fields : List (String × Json)) → fields ≠ [] →
      (fieldTokens fields ++ .closeObject :: rest).foldlM step? ⟨.key before, stack⟩ =
        rest.foldlM step? ⟨.after (.object (before.reverse ++ fields)), stack⟩
  | [], empty => absurd rfl empty
  | [(key, value)], _ => by
    simp only [fieldTokens, List.cons_append]
    rw [reads_cons rfl, reads_cons rfl, reads_tokens, reads_cons rfl, List.reverse_cons]
  | (key, value) :: next :: more, _ => by
    have further :=
      reads_fieldTokens stack rest ((key, value) :: before) (next :: more) (List.cons_ne_nil _ _)
    simp only [fieldTokens, List.cons_append, List.append_assoc]
    rw [reads_cons rfl, reads_cons rfl, reads_tokens, reads_cons rfl, further]
    simp

end

theorem ofTokens?_tokens (json : Json) : ofTokens? json.tokens = some json := by
  have read := reads_tokens [] [] json
  rw [List.append_nil] at read
  rw [ofTokens?, start, read]
  rfl

variable {json : Json} (legible : json.Legible)
include legible

theorem parse?_of_spells {chars : List Char} (spells : Spells json.tokens chars) :
    parse? (String.ofList chars) = some json := by
  have separated : Separated (json.tokens ++ []) := separated_tokens .nil (by simp) json
  rw [List.append_nil] at separated
  rw [parse?, String.toList_ofList, scan?_of_spells spells legible separated]
  exact ofTokens?_tokens json

theorem parse?_compact : parse? json.compact = some json :=
  parse?_of_spells legible (spells_compact json.tokens)

theorem parse?_pretty : parse? json.pretty = some json :=
  parse?_of_spells legible (spells_prettyAt 0 json)

end CodeInventory.Json
