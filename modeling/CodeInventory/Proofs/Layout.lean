import Mathlib.Data.List.Chain
import CodeInventory.Proofs.Address

set_option autoImplicit false

namespace CodeInventory

namespace SyntaxTree

variable {holds : SyntaxTree → Prop} {first last : Span → Nat} {tree node : SyntaxTree}
  {address : Address}

def Everywhere (holds : SyntaxTree → Prop) (tree : SyntaxTree) : Prop :=
  ∀ address ∈ tree.addresses, ∀ node ∈ tree.at? address, holds node

instance [DecidablePred holds] : DecidablePred (Everywhere holds) :=
  fun _ => inferInstanceAs (Decidable (∀ _ ∈ _, _))

theorem Everywhere.at (every : tree.Everywhere holds) (found : tree.at? address = some node) :
    holds node :=
  every address (by simp [mem_addresses, found]) node found

theorem Everywhere.root (every : tree.Everywhere holds) : holds tree :=
  every.at (show tree.at? [] = some tree from rfl)

theorem Everywhere.below (every : tree.Everywhere holds) (found : tree.at? address = some node) :
    node.Everywhere holds := by
  intro under _ inner inside
  have whole : tree.at? (address ++ under) = some inner := by
    rw [at?_append, found]
    exact inside
  exact every.at whole

theorem Everywhere.imp {weaker : SyntaxTree → Prop} (every : tree.Everywhere holds)
    (weaken : ∀ node, holds node → weaker node) : tree.Everywhere weaker :=
  fun address inside node found => weaken node (every address inside node found)

theorem at?_child {index : Nat} {child : SyntaxTree} (member : tree.children[index]? = some child) :
    tree.at? [index] = some child := by
  simp [at?, member]

def Nested (first last : Span → Nat) (node : SyntaxTree) : Prop :=
  ∀ child ∈ node.children, first node.span ≤ first child.span ∧ last child.span ≤ last node.span

instance : DecidablePred (Nested first last) :=
  fun _ => inferInstanceAs (Decidable (∀ _ ∈ _, _))

theorem Nested.within (every : tree.Everywhere (Nested first last))
    (found : tree.at? address = some node) :
    first tree.span ≤ first node.span ∧ last node.span ≤ last tree.span := by
  induction address generalizing tree with
  | nil =>
    obtain rfl : tree = node := Option.some.inj found
    exact ⟨Nat.le_refl _, Nat.le_refl _⟩
  | cons index rest ih =>
    obtain ⟨child, member, below⟩ := Option.bind_eq_some_iff.mp found
    have inner := ih (every.below (at?_child member)) below
    have outer := every.root child (List.mem_of_getElem? member)
    omega

-- A node ends no earlier than it begins, its children lie inside it, and each of them ends before
-- the next begins.
def Laid (first last : Span → Nat) (node : SyntaxTree) : Prop :=
  first node.span ≤ last node.span ∧
    (∀ child ∈ node.children,
      first node.span ≤ first child.span ∧ last child.span ≤ last node.span) ∧
    node.children.IsChain fun left right => last left.span ≤ first right.span

instance : DecidablePred (Laid first last) :=
  fun _ => inferInstanceAs (Decidable (_ ∧ _ ∧ _))

theorem Laid.siblings (every : tree.Everywhere (Laid first last)) :
    tree.children.Pairwise fun left right => last left.span ≤ first right.span := by
  have upright : ∀ child ∈ tree.children, first child.span ≤ last child.span := by
    intro child member
    obtain ⟨index, found⟩ := List.getElem?_of_mem member
    exact (every.at (at?_child found)).1
  have chain := every.root.2.2
  generalize tree.children = children at upright chain
  induction children with
  | nil => exact List.Pairwise.nil
  | cons child rest ih =>
    have later := ih (fun other member => upright other (List.mem_cons_of_mem _ member)) chain.tail
    refine List.pairwise_cons.mpr ⟨?_, later⟩
    cases rest with
    | nil => simp
    | cons next others =>
      have step := (List.isChain_cons_cons.mp chain).1
      intro other member
      rcases List.mem_cons.mp member with rfl | further
      · exact step
      · -- The next sibling stands between the two.
        have := upright next (by simp)
        have := (List.pairwise_cons.mp later).1 other further
        omega

theorem Laid.within (every : tree.Everywhere (Laid first last))
    (found : tree.at? address = some node) :
    first tree.span ≤ first node.span ∧ last node.span ≤ last tree.span :=
  Nested.within (every.imp fun _ laid => laid.2.1) found

theorem Laid.last_le_first {left right : Address} {earlier later : SyntaxTree}
    (every : tree.Everywhere (Laid first last)) (before : left < right)
    (apart : ¬ left <+: right) (foundLeft : tree.at? left = some earlier)
    (foundRight : tree.at? right = some later) :
    last earlier.span ≤ first later.span := by
  induction left generalizing tree right with
  | nil => exact absurd (List.nil_prefix) apart
  | cons index rest ih =>
    cases right with
    | nil => exact absurd before (List.not_lt_nil _)
    | cons other rest' =>
      obtain ⟨child, member, below⟩ := Option.bind_eq_some_iff.mp foundLeft
      obtain ⟨child', member', below'⟩ := Option.bind_eq_some_iff.mp foundRight
      -- The ways part here, into different children, or further down.
      rcases List.cons_lt_cons_iff.mp before with lower | ⟨rfl, further⟩
      · have inside := Laid.within (every.below (at?_child member)) below
        have inside' := Laid.within (every.below (at?_child member')) below'
        obtain ⟨bound, rfl⟩ := List.getElem?_eq_some_iff.mp member
        obtain ⟨bound', rfl⟩ := List.getElem?_eq_some_iff.mp member'
        have := List.pairwise_iff_getElem.mp (Laid.siblings every) index other bound bound' lower
        omega
      · obtain rfl : child = child' := Option.some.inj (member.symm.trans member')
        apply ih (every.below (at?_child member)) further _ below below'
        simpa using apart

end SyntaxTree

end CodeInventory
