import CodeInventory.Inventory.Format
import CodeInventory.Proofs.JsonFields
import CodeInventory.Proofs.JsonText
import CodeInventory.Proofs.Roster

set_option autoImplicit false

namespace CodeInventory

def Chunk.Fits (chunk : Chunk) : Prop :=
  chunk.startLine < Json.wordLimit ∧ chunk.endLine < Json.wordLimit

instance : DecidablePred Chunk.Fits := fun _ => instDecidableAnd

namespace Chunk

theorem ofFields?_fields {chunk : Chunk} (fits : chunk.Fits) :
    ofFields? chunk.fields = some chunk := by
  obtain ⟨start, finish⟩ := fits
  simp [ofFields?, fields, Json.get?, Json.valuesUnder, ofParts?, Json.string?, Json.word?, start,
    finish]

theorem ofJson?_toJson {chunk : Chunk} (fits : chunk.Fits) : ofJson? chunk.toJson = some chunk :=
  ofFields?_fields fits

theorem list?_toJson {chunks : List Chunk} (fits : ∀ chunk ∈ chunks, chunk.Fits) :
    (Json.array (chunks.map toJson)).list? ofJson? = some chunks :=
  Json.mapM_map fun chunk found => ofJson?_toJson (fits chunk found)

theorem legible (chunk : Chunk) : chunk.toJson.Legible :=
  Json.legible_object (by simp [fields, Json.Legible, Json.tokens, Json.Token.Legible])

def Alike : Json → Json → Prop :=
  Json.AlikeObjects ["code", "start_line", "end_line"] id fun _ => Eq

theorem ofFields?_eq {left right : List (String × Json)} {keys : List String}
    (same : Json.SameFields keys id (fun _ => Eq) left right)
    (known : ["code", "start_line", "end_line"] ⊆ keys) : ofFields? left = ofFields? right := by
  have code : Json.get? left "code" = Json.get? right "code" := same.get?_eq (known (by simp))
  have start : Json.get? left "start_line" = Json.get? right "start_line" :=
    same.get?_eq (known (by simp))
  have finish : Json.get? left "end_line" = Json.get? right "end_line" :=
    same.get?_eq (known (by simp))
  rw [ofFields?, code, start, finish, ← ofFields?]

theorem ofJson?_eq {left right : Json} (alike : Alike left right) :
    ofJson? left = ofJson? right := by
  cases alike with
  | same => rfl
  | object fields => exact ofFields?_eq fields (List.Subset.refl _)

end Chunk

namespace NamedChunk

theorem ofJson?_toJson {named : NamedChunk} (fits : named.chunk.Fits) :
    ofJson? named.toJson = some named := by
  have name : Json.get? (("name", .string named.name) :: named.chunk.fields) "name" =
      some (.string named.name) := by
    simp [Json.get?, Json.valuesUnder, Chunk.fields]
  have chunk : Chunk.ofFields? (("name", .string named.name) :: named.chunk.fields) =
      Chunk.ofFields? named.chunk.fields := by
    simp [Chunk.ofFields?, Json.get?, Json.valuesUnder, Chunk.fields]
  simp [ofJson?, toJson, name, chunk, Chunk.ofFields?_fields fits, Json.string?]

theorem list?_toJson {list : List NamedChunk} (fits : ∀ named ∈ list, named.chunk.Fits) :
    (Json.array (list.map toJson)).list? ofJson? = some list :=
  Json.mapM_map fun named found => ofJson?_toJson (fits named found)

theorem legible (named : NamedChunk) : named.toJson.Legible :=
  Json.legible_object (by simp [Chunk.fields, Json.Legible, Json.tokens, Json.Token.Legible])

def Alike : Json → Json → Prop :=
  Json.AlikeObjects ["name", "code", "start_line", "end_line"] id fun _ => Eq

theorem ofJson?_eq {left right : Json} (alike : Alike left right) :
    ofJson? left = ofJson? right := by
  cases alike with
  | same => rfl
  | @object left right fields =>
    have name : Json.get? left "name" = Json.get? right "name" := fields.get?_eq (by simp)
    have chunk : Chunk.ofFields? left = Chunk.ofFields? right :=
      Chunk.ofFields?_eq fields (List.subset_cons_self _ _)
    rw [ofJson?, ofJson?, name, chunk]

end NamedChunk

namespace Roster

theorem ofJson?_toJson {roster : Roster} (fits : ∀ chunk ∈ roster.chunks, chunk.Fits) :
    ofJson? roster.toJson = some roster := by
  have entries : (roster.entries.map fun entry => (entry.1, entry.2.toJson)).mapM
      (fun field => (Chunk.ofJson? field.2).map fun chunk => (field.1, chunk)) =
        some roster.entries := by
    apply Json.mapM_map
    intro entry found
    simp [Chunk.ofJson?_toJson (fits entry.2 (List.mem_map_of_mem found))]
  simp [ofJson?, toJson, entries, ofList_entries]

theorem legible (roster : Roster) : roster.toJson.Legible := by
  apply Json.legible_object
  rw [List.forall_mem_map]
  exact fun entry _ => entry.2.legible

inductive Alike : Json → Json → Prop where
  | same (json : Json) : Alike json json
  | object {left right : List (String × Json)}
      (fields : List.Forall₂ (fun first second => first.1 = second.1 ∧
        Chunk.Alike first.2 second.2) left right) : Alike (.object left) (.object right)

theorem ofJson?_eq {left right : Json} (alike : Alike left right) :
    ofJson? left = ofJson? right := by
  cases alike with
  | same => rfl
  | object fields =>
    rw [ofJson?, ofJson?, Json.mapM_eq_of_forall₂ fields]
    rintro first second ⟨name, chunk⟩
    rw [name, Chunk.ofJson?_eq chunk]

end Roster

namespace Inventory

def Fits (inventory : Inventory) : Prop :=
  ∀ chunk ∈ inventory.chunks, chunk.Fits

instance : DecidablePred Fits := fun inventory =>
  List.decidableBAll Chunk.Fits inventory.chunks

def read? (text : String) : Option Inventory := do
  ofJson? (← Json.parse? text)

theorem ofSlots?_slotToJson {inventory : Inventory} (fits : inventory.Fits) :
    ofSlots? (fun category => some (inventory.slotToJson category)) = some inventory := by
  simp only [Fits, chunks, rosters, List.forall_mem_append, List.forall_mem_map,
    List.flatMap_cons, List.flatMap_nil, List.append_nil] at fits
  obtain ⟨⟨⟨⟨imports, globalVariables⟩, typeDefinitions⟩, jsxElements⟩, functions, asyncFunctions,
    classes, hooks, components⟩ := fits
  have texts : (Json.array (inventory.otherBlocks.map .string)).list? Json.string? =
      some inventory.otherBlocks :=
    Json.mapM_map fun _ _ => rfl
  simp [ofSlots?, slotToJson, Chunk.list?_toJson imports, Chunk.list?_toJson globalVariables,
    NamedChunk.list?_toJson typeDefinitions, Roster.ofJson?_toJson functions,
    Roster.ofJson?_toJson asyncFunctions, Roster.ofJson?_toJson classes,
    Roster.ofJson?_toJson hooks, Roster.ofJson?_toJson components,
    Chunk.list?_toJson jsxElements, texts]

theorem get?_written (inventory : Inventory) (category : Category) :
    Json.get? (Category.all.map fun category => (category.key, inventory.slotToJson category))
      category.key = some (inventory.slotToJson category) := by
  cases category <;> simp [Json.get?, Json.valuesUnder, Category.all, Category.key]

theorem ofJson?_toJson {inventory : Inventory} (fits : inventory.Fits) :
    ofJson? inventory.toJson = some inventory := by
  simp only [ofJson?, toJson, get?_written]
  exact ofSlots?_slotToJson fits

theorem legible (inventory : Inventory) : inventory.toJson.Legible := by
  apply Json.legible_object
  rw [List.forall_mem_map]
  intro category _
  cases category with
  | imports | globalVariables | jsxElements =>
    exact Json.legible_array (List.forall_mem_map.mpr fun chunk _ => chunk.legible)
  | typeDefinitions =>
    exact Json.legible_array (List.forall_mem_map.mpr fun named _ => named.legible)
  | functions | asyncFunctions | classes | hooks | components => exact Roster.legible _
  | otherBlocks =>
    refine Json.legible_array (List.forall_mem_map.mpr fun text _ => ?_)
    simp [Json.Legible, Json.tokens, Json.Token.Legible]

def SlotAlike : Category → Json → Json → Prop
  | .imports | .globalVariables | .jsxElements => Json.AlikeArrays Chunk.Alike
  | .typeDefinitions => Json.AlikeArrays NamedChunk.Alike
  | .functions | .asyncFunctions | .classes | .hooks | .components => Roster.Alike
  | .otherBlocks => Eq

def Alike : Json → Json → Prop :=
  Json.AlikeObjects Category.all Category.key SlotAlike

theorem ofSlots?_eq {left right : Category → Option Json}
    (alike : ∀ category, Option.Rel (SlotAlike category) (left category) (right category)) :
    ofSlots? left = ofSlots? right := by
  have chunks (category : Category) (kind : SlotAlike category = Json.AlikeArrays Chunk.Alike) :
      (left category).bind (Json.list? Chunk.ofJson?) =
        (right category).bind (Json.list? Chunk.ofJson?) :=
    Json.bind_eq_of_rel (alike category) fun _ _ same =>
      (kind ▸ same).list?_eq fun _ _ => Chunk.ofJson?_eq
  have named : (left .typeDefinitions).bind (Json.list? NamedChunk.ofJson?) =
      (right .typeDefinitions).bind (Json.list? NamedChunk.ofJson?) :=
    Json.bind_eq_of_rel (alike .typeDefinitions) fun _ _ same =>
      Json.AlikeArrays.list?_eq same fun _ _ => NamedChunk.ofJson?_eq
  have rosters (category : Category) (kind : SlotAlike category = Roster.Alike) :
      (left category).bind Roster.ofJson? = (right category).bind Roster.ofJson? :=
    Json.bind_eq_of_rel (alike category) fun _ _ same => Roster.ofJson?_eq (kind ▸ same)
  have texts : (left .otherBlocks).bind (Json.list? Json.string?) =
      (right .otherBlocks).bind (Json.list? Json.string?) :=
    Json.bind_eq_of_rel (alike .otherBlocks) fun _ _ same => congrArg _ same
  unfold ofSlots?
  simp only [bind, ← Option.bind_assoc, chunks .imports rfl, chunks .globalVariables rfl, named,
    rosters .functions rfl, rosters .asyncFunctions rfl, rosters .classes rfl, rosters .hooks rfl,
    rosters .components rfl, chunks .jsxElements rfl, texts]

theorem ofJson?_eq {left right : Json} (alike : Alike left right) :
    ofJson? left = ofJson? right := by
  cases alike with
  | same => rfl
  | object fields =>
    exact ofSlots?_eq fun category => fields.get? (by cases category <;> decide)

variable {inventory : Inventory}

theorem read?_compact (fits : inventory.Fits) :
    read? inventory.toJson.compact = some inventory := by
  rw [read?, Json.parse?_compact inventory.legible]
  exact ofJson?_toJson fits

theorem read?_pretty (fits : inventory.Fits) :
    read? inventory.toJson.pretty = some inventory := by
  rw [read?, Json.parse?_pretty inventory.legible]
  exact ofJson?_toJson fits

/-- What is written of an inventory reads as that inventory, in both layouts, so no two inventories
are written alike. Fields may change places in any text, and unknown keys may be put among them. -/
theorem reads_as_written (fits : inventory.Fits) :
    (read? inventory.toJson.compact = some inventory ∧
      read? inventory.toJson.pretty = some inventory) ∧
    (∀ other : Inventory, other.Fits →
      (inventory.toJson.compact = other.toJson.compact → inventory = other) ∧
      (inventory.toJson.pretty = other.toJson.pretty → inventory = other)) ∧
    ∀ left right : String, Option.Rel Alike (Json.parse? left) (Json.parse? right) →
      read? left = read? right := by
  refine ⟨⟨read?_compact fits, read?_pretty fits⟩, fun other otherFits => ⟨?_, ?_⟩, ?_⟩
  · intro same
    apply Option.some.inj
    rw [← read?_compact fits, same, read?_compact otherFits]
  · intro same
    apply Option.some.inj
    rw [← read?_pretty fits, same, read?_pretty otherFits]
  · intro left right alike
    exact Json.bind_eq_of_rel alike fun _ _ => ofJson?_eq

def oddText : String :=
  "\"\\/\n\r\t\x08\x0c\x01\x7fé漢😀"

def oddInventory : Inventory :=
  { empty with
    imports := [⟨oddText, 1, Json.wordLimit - 1⟩]
    typeDefinitions := [⟨oddText, ⟨oddText, 0, 7⟩⟩]
    functions := Roster.empty.insert oddText ⟨"", 2, 1⟩
    otherBlocks := ["", oddText] }

def oddJson : Json :=
  .object
    [("version", .number "-1.5e3"), ("other_blocks", .array [.string "", .string oddText]),
      ("jsx_elements", .array []), ("components", .object []), ("hooks", .object []),
      ("functions", .object [(oddText, .object (("note", .null) ::
        (Chunk.fields ⟨"", 2, 1⟩).reverse))]),
      ("imports", .array [.object (("note", .array []) ::
        (Chunk.fields ⟨oddText, 1, Json.wordLimit - 1⟩).reverse)]),
      ("type_definitions", .array [.object [("code", .string oddText), ("end_line", .nat 7),
        ("kind", .object []), ("start_line", .nat 0), ("name", .string oddText)]]),
      ("global_variables", .array []), ("async_functions", .object []), ("classes", .object [])]

theorem alike_oddJson : Alike oddInventory.toJson oddJson := by
  have chunk (note : Json) (chunk : Chunk) :
      Chunk.Alike chunk.toJson (.object (("note", note) :: chunk.fields.reverse)) := by
    apply Json.AlikeObjects.object
    apply Json.SameFields.of_perm fun _ _ => rfl
    simpa [Chunk.fields] using (List.reverse_perm chunk.fields).symm
  have named : NamedChunk.Alike (NamedChunk.toJson ⟨oddText, ⟨oddText, 0, 7⟩⟩) (.object
      [("code", .string oddText), ("end_line", .nat 7), ("kind", .object []),
        ("start_line", .nat 0), ("name", .string oddText)]) := by
    apply Json.AlikeObjects.object
    apply Json.SameFields.of_values fun _ _ => rfl
    simp [Json.valuesUnder, Chunk.fields]
  refine .object fun category _ => ⟨_, .refl _, ?_⟩
  cases category with
  | imports => exact .cons (.array (.cons (chunk _ _) .nil)) .nil
  | typeDefinitions => exact .cons (.array (.cons named .nil)) .nil
  | functions => exact .cons (.object (.cons ⟨rfl, chunk _ _⟩ .nil)) .nil
  | globalVariables | jsxElements => exact .cons (.same _) .nil
  | asyncFunctions | classes | hooks | components => exact .cons (.same _) .nil
  | otherBlocks => exact .cons rfl .nil

theorem reads_as_written_odd : oddInventory.Fits ∧
    read? oddInventory.toJson.compact = some oddInventory ∧
    read? oddInventory.toJson.pretty = some oddInventory ∧
    oddInventory.toJson.compact ≠ empty.toJson.compact ∧
    oddInventory.toJson.pretty ≠ empty.toJson.pretty ∧
    read? oddJson.pretty = some oddInventory := by
  have fits : oddInventory.Fits := by decide
  have emptyFits : empty.Fits := by decide
  have different : oddInventory ≠ empty := by decide
  obtain ⟨⟨compact, pretty⟩, apart, rearranged⟩ := reads_as_written fits
  have legible : oddJson.Legible := by decide
  have alike : Option.Rel Alike (Json.parse? oddInventory.toJson.compact)
      (Json.parse? oddJson.pretty) := by
    rw [Json.parse?_compact oddInventory.legible, Json.parse?_pretty legible]
    exact .some alike_oddJson
  refine ⟨fits, compact, pretty, fun same => different ((apart _ emptyFits).1 same),
    fun same => different ((apart _ emptyFits).2 same), ?_⟩
  rw [← rearranged _ _ alike, compact]

end Inventory

end CodeInventory
