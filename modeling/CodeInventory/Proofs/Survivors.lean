import CodeInventory.Proofs.Filling

set_option autoImplicit false

namespace CodeInventory

def Construct.Replaces (later earlier : Construct) : Prop :=
  earlier.category ∈ Category.keyed ∧ later.category = earlier.category ∧
    later.entryName = earlier.entryName

instance (later earlier : Construct) : Decidable (later.Replaces earlier) :=
  inferInstanceAs (Decidable (_ ∧ _ ∧ _))

namespace Inventory

def survivors {α : Type} (construct : α → Construct) : List α → List α
  | [] => []
  | item :: rest =>
      if ∃ other ∈ rest, (construct other).Replaces (construct item) then survivors construct rest
      else item :: survivors construct rest

variable {α : Type} {construct : α → Construct} {constructs : List Construct}
  {category : Category} {inventory : Inventory}

theorem survivors_sublist (construct : α → Construct) (items : List α) :
    (survivors construct items).Sublist items := by
  induction items with
  | nil => exact List.Sublist.slnil
  | cons item rest ih =>
    unfold survivors
    split
    · exact ih.cons item
    · exact ih.cons_cons item

theorem map_survivors (construct : α → Construct) (items : List α) :
    (survivors construct items).map construct = survivors id (items.map construct) := by
  induction items with
  | nil => rfl
  | cons item rest ih =>
    by_cases replaced : ∃ other ∈ rest, (construct other).Replaces (construct item)
    · simp [survivors, replaced, ih]
    · simp [survivors, replaced, ih]

theorem share_survivors (listed : category ∉ Category.keyed) (constructs : List Construct) :
    share category (survivors id constructs) = share category constructs := by
  induction constructs with
  | nil => rfl
  | cons item rest ih =>
    unfold survivors
    split
    next replaced =>
      obtain ⟨other, -, keyed, -⟩ := replaced
      have elsewhere : item.category ≠ category := by
        rintro rfl
        exact listed keyed
      rw [ih]
      simp [share, elsewhere]
    next =>
      simp only [share, List.filter_cons] at ih ⊢
      rw [ih]

theorem survivors_apart (constructs : List Construct) :
    (survivors id constructs).Pairwise fun earlier later => ¬ later.Replaces earlier := by
  induction constructs with
  | nil => exact List.Pairwise.nil
  | cons item rest ih =>
    unfold survivors
    split
    next => exact ih
    next kept =>
      refine List.pairwise_cons.mpr ⟨?_, ih⟩
      intro later member replaces
      exact kept ⟨later, (survivors_sublist id rest).subset member, replaces⟩

theorem latest?_eq_some_iff (keyed : category ∈ Category.keyed) (name : String) (chunk : Chunk)
    (constructs : List Construct) :
    latest? category name constructs = some chunk ↔
      ∃ construct ∈ survivors id constructs,
        construct.category = category ∧ construct.entryName = name ∧ construct.chunk = chunk := by
  induction constructs with
  | nil => simp [latest?, share, survivors]
  | cons item rest ih =>
    rw [← List.singleton_append, latest?_append, latest?_singleton, List.singleton_append]
    by_cases belongs : item.category = category ∧ item.entryName = name
    · obtain ⟨rfl, rfl⟩ := belongs
      have replaced_iff : (∃ other ∈ rest, (id other).Replaces (id item)) ↔
          (latest? item.category item.entryName rest).isSome := by
        rw [isSome_latest?_iff]
        simp [Construct.Replaces, keyed]
      by_cases replaced : ∃ other ∈ rest, (id other).Replaces (id item)
      · obtain ⟨held, last⟩ := Option.isSome_iff_exists.mp (replaced_iff.mp replaced)
        rw [survivors, if_pos replaced, ← ih, last]
        rfl
      · have none : latest? item.category item.entryName rest = none :=
          Option.not_isSome_iff_eq_none.mp (mt replaced_iff.mpr replaced)
        rw [none] at ih
        rw [survivors, if_neg replaced, none]
        simp only [List.exists_mem_cons_iff, ← ih]
        simp
    · have elsewhere (later : Prop) :
          (item.category = category ∧ item.entryName = name ∧ item.chunk = chunk) ∨ later ↔ later := by
        grind
      rw [if_neg belongs, Option.or_none, ih, survivors]
      split
      next => rfl
      next => rw [List.exists_mem_cons_iff, elsewhere]

def chunksIn (inventory : Inventory) : Category → List Chunk
  | .imports => inventory.imports
  | .globalVariables => inventory.globalVariables
  | .typeDefinitions => inventory.typeDefinitions.map NamedChunk.chunk
  | .jsxElements => inventory.jsxElements
  | .functions => inventory.functions.chunks
  | .asyncFunctions => inventory.asyncFunctions.chunks
  | .classes => inventory.classes.chunks
  | .hooks => inventory.hooks.chunks
  | .components => inventory.components.chunks
  | .otherBlocks => []

def chunkOrder : List Category :=
  [.imports, .globalVariables, .typeDefinitions, .jsxElements] ++ Category.keyed

theorem chunks_eq_flatMap (inventory : Inventory) :
    inventory.chunks = chunkOrder.flatMap inventory.chunksIn := by
  simp [chunks, chunkOrder, Category.keyed, chunksIn, rosters]

theorem perm_shares {order : List Category} (distinct : order.Nodup) {constructs : List Construct}
    (belong : ∀ construct ∈ constructs, construct.category ∈ order) :
    constructs.Perm (order.flatMap fun category => share category constructs) := by
  induction order generalizing constructs with
  | nil =>
    obtain rfl : constructs = [] := by
      apply List.eq_nil_iff_forall_not_mem.mpr
      intro construct member
      exact List.not_mem_nil (belong construct member)
    exact List.Perm.nil
  | cons category order ih =>
    -- What does not belong to the first category is shared out among the others.
    obtain ⟨fresh, distinct⟩ := List.nodup_cons.mp distinct
    let others := constructs.filter fun construct => ¬ construct.category = category
    have elsewhere : ∀ construct ∈ others, construct.category ∈ order := by
      intro construct member
      obtain ⟨member, other⟩ := List.mem_filter.mp member
      exact (List.mem_cons.mp (belong construct member)).resolve_left (by simpa using other)
    have further := ih distinct elsewhere
    have shares : (order.flatMap fun other => share other others) =
        order.flatMap fun other => share other constructs := by
      apply List.flatMap_congr
      intro other member
      have different : other ≠ category := by
        rintro rfl
        exact fresh member
      rw [share, List.filter_filter]
      apply List.filter_congr
      intro construct _
      grind
    have divided : constructs.Perm (share category constructs ++ others) := by
      simpa [share, others] using
        (List.filter_append_perm (fun construct => construct.category = category) constructs).symm
    rw [List.flatMap_cons, ← shares]
    exact divided.trans (further.append_left _)

namespace FilledBy

variable {after : Inventory}

theorem roster_perm {roster : Roster} (filled : FilledBy .empty after constructs)
    (keyed : category ∈ Category.keyed) (slot : after.roster? category = some roster) :
    roster.chunks.Perm ((share category (survivors id constructs)).map Construct.chunk) := by
  have entries : roster.entries.Perm ((share category (survivors id constructs)).map
      fun construct => (construct.entryName, construct.chunk)) := by
    apply (List.perm_ext_iff_of_nodup roster.entries_nodup ?_).mpr
    · intro entry
      obtain ⟨name, chunk⟩ := entry
      have held := filled.entries category keyed name
      have nothing : Inventory.empty.chunkUnder? category name = none := by
        cases category <;> rfl
      rw [chunkUnder?, slot, Option.bind_some, nothing, Option.or_none] at held
      rw [← roster.get?_eq_some_iff, held, latest?_eq_some_iff keyed]
      simp [share, and_assoc]
    · -- Two survivors of one roster have different names.
      apply List.pairwise_map.mpr
      apply ((survivors_apart constructs).filter _).imp_of_mem
      intro earlier later inEarlier inLater kept same
      simp only [List.mem_filter, decide_eq_true_eq] at inEarlier inLater
      apply kept
      refine ⟨inEarlier.2 ▸ keyed, inLater.2.trans inEarlier.2.symm, ?_⟩
      exact (congrArg Prod.fst same).symm
  simpa [Roster.chunks, Function.comp_def] using entries.map Prod.snd

theorem chunksIn_perm (filled : FilledBy .empty after constructs) (category : Category) :
    (after.chunksIn category).Perm
      ((share category (survivors id constructs)).map Construct.chunk) := by
  cases category
  case imports =>
    rw [share_survivors (by decide), chunksIn, filled.imports]
    rfl
  case globalVariables =>
    rw [share_survivors (by decide), chunksIn, filled.globalVariables]
    rfl
  case typeDefinitions =>
    rw [share_survivors (by decide), chunksIn, filled.typeDefinitions]
    simp [Inventory.empty, Function.comp_def]
  case jsxElements =>
    rw [share_survivors (by decide), chunksIn, filled.jsxElements]
    rfl
  case otherBlocks =>
    have none : share .otherBlocks (survivors id constructs) = [] := by
      simp [share, Construct.category_ne_otherBlocks]
    rw [none]
    exact List.Perm.nil
  all_goals exact filled.roster_perm (by decide) rfl

theorem chunks_perm (filled : FilledBy .empty after constructs) :
    after.chunks.Perm ((survivors id constructs).map Construct.chunk) := by
  have belong : ∀ construct ∈ survivors id constructs, construct.category ∈ chunkOrder := by
    intro construct _
    have loose := construct.category_ne_otherBlocks
    cases slot : construct.category <;> simp_all [chunkOrder, Category.keyed]
  have shares := (perm_shares (by decide) belong).map Construct.chunk
  rw [List.map_flatMap] at shares
  rw [chunks_eq_flatMap]
  exact (List.Perm.flatMap_left _ fun category _ => filled.chunksIn_perm category).trans shares.symm

end FilledBy

end Inventory

end CodeInventory
