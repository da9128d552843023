import CodeInventory.Proofs.Roster
import CodeInventory.Walk

set_option autoImplicit false

namespace CodeInventory

def Category.keyed : List Category :=
  [.functions, .asyncFunctions, .classes, .hooks, .components]

namespace Construct

theorem category_ne_otherBlocks (construct : Construct) : construct.category ≠ .otherBlocks := by
  unfold category
  cases construct.kind <;> grind

theorem entryName_of_unnamed {construct : Construct} (unnamed : construct.name = none) :
    construct.entryName = "<anonymous>" := by
  simp [entryName, unnamed, anonymous]

-- The stand-in for a name decides the slot as a name would, and it is none of a hook.
theorem category_ne_hooks_of_unnamed {construct : Construct} (unnamed : construct.name = none) :
    construct.category ≠ .hooks := by
  have plain : Marker.isHook "<anonymous>" = false := by decide
  unfold category
  rw [entryName_of_unnamed unnamed, plain]
  cases construct.kind <;> grind

end Construct

namespace Inventory

def roster? (inventory : Inventory) : Category → Option Roster
  | .functions => some inventory.functions
  | .asyncFunctions => some inventory.asyncFunctions
  | .classes => some inventory.classes
  | .hooks => some inventory.hooks
  | .components => some inventory.components
  | _ => none

def chunkUnder? (inventory : Inventory) (category : Category) (name : String) : Option Chunk :=
  (inventory.roster? category).bind fun roster => roster.get? name

theorem mem_keyed_of_chunkUnder? {inventory : Inventory} {category : Category} {name : String}
    (held : (inventory.chunkUnder? category name).isSome) : category ∈ Category.keyed := by
  cases category <;> simp_all [chunkUnder?, roster?, Category.keyed]

def share (category : Category) (constructs : List Construct) : List Construct :=
  constructs.filter fun construct => construct.category = category

def latest? (category : Category) (name : String) (constructs : List Construct) : Option Chunk :=
  ((share category constructs).filter fun construct =>
    construct.entryName = name).getLast?.map Construct.chunk

theorem share_append (category : Category) (earlier later : List Construct) :
    share category (earlier ++ later) = share category earlier ++ share category later :=
  List.filter_append earlier later

theorem share_singleton (category : Category) (construct : Construct) :
    share category [construct] = if construct.category = category then [construct] else [] := by
  simp [share, List.filter_cons]

theorem latest?_singleton (category : Category) (name : String) (construct : Construct) :
    latest? category name [construct] =
      if construct.category = category ∧ construct.entryName = name then some construct.chunk
      else none := by
  by_cases belongs : construct.category = category <;>
    by_cases named : construct.entryName = name <;>
      simp [latest?, share_singleton, belongs, named]

theorem latest?_append (category : Category) (name : String) (earlier later : List Construct) :
    latest? category name (earlier ++ later) =
      (latest? category name later).or (latest? category name earlier) := by
  unfold latest?
  rw [share_append, List.filter_append, List.getLast?_append]
  cases ((share category later).filter fun construct =>
    construct.entryName = name).getLast? <;> rfl

theorem mem_of_latest? {category : Category} {name : String} {constructs : List Construct}
    {chunk : Chunk} (last : latest? category name constructs = some chunk) :
    ∃ construct ∈ constructs,
      construct.category = category ∧ construct.entryName = name ∧ construct.chunk = chunk := by
  obtain ⟨construct, found, held⟩ := Option.map_eq_some_iff.mp last
  have member := List.mem_of_getLast? found
  simp only [share, List.mem_filter, decide_eq_true_eq] at member
  exact ⟨construct, member.1.1, member.1.2, member.2, held⟩

theorem isSome_latest?_iff (category : Category) (name : String) (constructs : List Construct) :
    (latest? category name constructs).isSome ↔
      ∃ construct ∈ constructs, construct.category = category ∧ construct.entryName = name := by
  simp [latest?, share, and_comm]

theorem mem_chunks_iff (inventory : Inventory) (chunk : Chunk) :
    chunk ∈ inventory.chunks ↔
      chunk ∈ inventory.imports ∨ chunk ∈ inventory.globalVariables ∨
        (∃ named ∈ inventory.typeDefinitions, named.chunk = chunk) ∨
        chunk ∈ inventory.jsxElements ∨
        ∃ category ∈ Category.keyed, ∃ name, inventory.chunkUnder? category name = some chunk := by
  simp [chunks, rosters, Category.keyed, chunkUnder?, roster?, Roster.mem_chunks]

-- Lists grow at the end, in a roster the last construct of a name stands, and nothing else changes:
-- no construct has the category of the loose text.
structure FilledBy (before after : Inventory) (constructs : List Construct) : Prop where
  imports : after.imports = before.imports ++ (share .imports constructs).map Construct.chunk
  globalVariables : after.globalVariables =
    before.globalVariables ++ (share .globalVariables constructs).map Construct.chunk
  typeDefinitions : after.typeDefinitions = before.typeDefinitions ++
    (share .typeDefinitions constructs).map fun construct => ⟨construct.entryName, construct.chunk⟩
  jsxElements : after.jsxElements =
    before.jsxElements ++ (share .jsxElements constructs).map Construct.chunk
  entries : ∀ category ∈ Category.keyed, ∀ name, after.chunkUnder? category name =
    (latest? category name constructs).or (before.chunkUnder? category name)
  otherBlocks : after.otherBlocks = before.otherBlocks
  placed : ∀ construct ∈ constructs, construct.category ≠ .otherBlocks

namespace FilledBy

variable {before middle after : Inventory} {earlier later constructs : List Construct}

theorem refl (inventory : Inventory) : FilledBy inventory inventory [] := by
  constructor <;> simp [share, latest?]

theorem trans (first : FilledBy before middle earlier) (second : FilledBy middle after later) :
    FilledBy before after (earlier ++ later) where
  imports := by simp [second.imports, first.imports, share_append]
  globalVariables := by simp [second.globalVariables, first.globalVariables, share_append]
  typeDefinitions := by simp [second.typeDefinitions, first.typeDefinitions, share_append]
  jsxElements := by simp [second.jsxElements, first.jsxElements, share_append]
  entries category keyed name := by
    rw [second.entries category keyed, first.entries category keyed, latest?_append,
      Option.or_assoc]
  otherBlocks := second.otherBlocks.trans first.otherBlocks
  placed := List.forall_mem_append.mpr ⟨first.placed, second.placed⟩

theorem unique {other : Inventory} (filled : FilledBy before after constructs)
    (same : FilledBy before other constructs) : after = other := by
  have entries : ∀ category ∈ Category.keyed, ∀ name,
      after.chunkUnder? category name = other.chunkUnder? category name := by
    intro category keyed name
    rw [filled.entries category keyed, same.entries category keyed]
  -- A roster is known by what stands under each name, and each category has its own roster.
  have functions := Roster.ext_get? (entries .functions (by simp [Category.keyed]))
  have asyncFunctions := Roster.ext_get? (entries .asyncFunctions (by simp [Category.keyed]))
  have classes := Roster.ext_get? (entries .classes (by simp [Category.keyed]))
  have hooks := Roster.ext_get? (entries .hooks (by simp [Category.keyed]))
  have components := Roster.ext_get? (entries .components (by simp [Category.keyed]))
  have imports := filled.imports.trans same.imports.symm
  have globalVariables := filled.globalVariables.trans same.globalVariables.symm
  have typeDefinitions := filled.typeDefinitions.trans same.typeDefinitions.symm
  have jsxElements := filled.jsxElements.trans same.jsxElements.symm
  have otherBlocks := filled.otherBlocks.trans same.otherBlocks.symm
  cases after
  cases other
  simp_all

theorem mem_chunks (filled : FilledBy before after constructs) {chunk : Chunk}
    (found : chunk ∈ after.chunks) :
    chunk ∈ before.chunks ∨ ∃ construct ∈ constructs, construct.chunk = chunk := by
  rw [mem_chunks_iff] at found ⊢
  simp only [filled.imports, filled.globalVariables, filled.typeDefinitions, filled.jsxElements,
    List.mem_append, List.mem_map] at found
  have listed {category : Category} {construct : Construct}
      (member : construct ∈ share category constructs) : construct ∈ constructs :=
    List.mem_of_mem_filter member
  rcases found with (old | new) | (old | new) | ⟨named, old | new, same⟩ | (old | new) | held
  · exact .inl (.inl old)
  · exact .inr (new.imp fun _ => .imp_left listed)
  · exact .inl (.inr (.inl old))
  · exact .inr (new.imp fun _ => .imp_left listed)
  · exact .inl (.inr (.inr (.inl ⟨named, old, same⟩)))
  · obtain ⟨construct, member, rfl⟩ := new
    exact .inr ⟨construct, listed member, same⟩
  · exact .inl (.inr (.inr (.inr (.inl old))))
  · exact .inr (new.imp fun _ => .imp_left listed)
  · obtain ⟨category, keyed, name, held⟩ := held
    rw [filled.entries category keyed, Option.or_eq_some_iff] at held
    rcases held with last | ⟨-, old⟩
    · obtain ⟨construct, member, -, -, same⟩ := mem_of_latest? last
      exact .inr ⟨construct, member, same⟩
    · exact .inl (.inr (.inr (.inr (.inr ⟨category, keyed, name, old⟩))))

end FilledBy

end Inventory

end CodeInventory
