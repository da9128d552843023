import Mathlib.Data.List.Basic
import CodeInventory.SyntaxTree

set_option autoImplicit false

namespace CodeInventory

abbrev Address := List Nat

namespace SyntaxTree

def at? (tree : SyntaxTree) : Address → Option SyntaxTree
  | [] => some tree
  | index :: rest => tree.children[index]?.bind fun child => child.at? rest

theorem at?_append (tree : SyntaxTree) (above below : Address) :
    tree.at? (above ++ below) = (tree.at? above).bind fun node => node.at? below := by
  induction above generalizing tree with
  | nil => rfl
  | cons index rest ih =>
    simp only [List.cons_append, at?]
    cases tree.children[index]? with
    | none => rfl
    | some child => exact ih child

theorem at?_snoc {tree node : SyntaxTree} {address : Address} (found : tree.at? address = some node)
    (index : Nat) : tree.at? (address ++ [index]) = node.children[index]? := by
  rw [at?_append, found]
  cases h : node.children[index]? <;> simp [at?, h]

theorem isSome_at?_of_prefix {tree : SyntaxTree} {above address : Address}
    (path : above <+: address) (inside : (tree.at? address).isSome) : (tree.at? above).isSome := by
  obtain ⟨below, rfl⟩ := path
  rw [at?_append] at inside
  exact Option.isSome_of_isSome_bind inside

mutual

def addresses : SyntaxTree → List Address
  | node _ children => [] :: addressesOfAll 0 children

def addressesOfAll (index : Nat) : List SyntaxTree → List Address
  | [] => []
  | tree :: rest => tree.addresses.map (index :: ·) ++ addressesOfAll (index + 1) rest

end

mutual

theorem mem_addresses (tree : SyntaxTree) (address : Address) :
    address ∈ tree.addresses ↔ (tree.at? address).isSome := by
  cases tree with
  | node label children =>
    cases address with
    | nil => simp [addresses, at?]
    | cons index rest =>
      have below := mem_addressesOfAll children 0 index rest
      simpa [addresses, at?, SyntaxTree.children] using below

theorem mem_addressesOfAll (trees : List SyntaxTree) (first index : Nat) (rest : Address) :
    index :: rest ∈ addressesOfAll first trees ↔
      first ≤ index ∧ (trees[index - first]?.bind fun tree => tree.at? rest).isSome := by
  cases trees with
  | nil => simp [addressesOfAll]
  | cons tree trees =>
    have here := mem_addresses tree rest
    have later := mem_addressesOfAll trees (first + 1) index rest
    rw [addressesOfAll, List.mem_append, later]
    rcases Nat.lt_trichotomy first index with before | rfl | behind
    · have shift : index - first = index - (first + 1) + 1 := by omega
      simp [shift, Nat.le_of_lt before, Nat.succ_le_of_lt before, Nat.ne_of_lt before]
    · rw [or_iff_left fun behind => Nat.not_succ_le_self first behind.1]
      simp [here]
    · simp [Nat.not_le_of_lt behind, Nat.ne_of_gt behind, Nat.not_le_of_lt (Nat.lt_succ_of_lt behind)]

end

theorem nil_not_mem_addressesOfAll (trees : List SyntaxTree) (first : Nat) :
    [] ∉ addressesOfAll first trees := by
  induction trees generalizing first with
  | nil => simp [addressesOfAll]
  | cons tree trees ih => simp [addressesOfAll, ih]

theorem addressesOfAll_starts {trees : List SyntaxTree} {first : Nat} {address : Address}
    (found : address ∈ addressesOfAll first trees) :
    ∃ index rest, address = index :: rest ∧ first ≤ index := by
  cases address with
  | nil => exact absurd found (nil_not_mem_addressesOfAll trees first)
  | cons index rest => exact ⟨index, rest, rfl, ((mem_addressesOfAll trees first index rest).mp found).1⟩

mutual

theorem addresses_ascending (tree : SyntaxTree) : tree.addresses.Pairwise (· < ·) := by
  cases tree with
  | node label children =>
    rw [addresses, List.pairwise_cons]
    refine ⟨?_, addressesOfAll_ascending children 0⟩
    intro address found
    obtain ⟨index, rest, rfl, -⟩ := addressesOfAll_starts found
    exact List.nil_lt_cons index rest

theorem addressesOfAll_ascending (trees : List SyntaxTree) (first : Nat) :
    (addressesOfAll first trees).Pairwise (· < ·) := by
  cases trees with
  | nil => simp [addressesOfAll]
  | cons tree trees =>
    rw [addressesOfAll, List.pairwise_append, List.pairwise_map]
    refine ⟨?_, addressesOfAll_ascending trees (first + 1), ?_⟩
    -- Below one child the first index is the same, below a later one it is greater.
    · exact (addresses_ascending tree).imp fun before =>
        List.cons_lt_cons_iff.mpr (.inr ⟨rfl, before⟩)
    · intro left inTree right inRest
      obtain ⟨below, -, rfl⟩ := List.mem_map.mp inTree
      obtain ⟨index, rest, rfl, later⟩ := addressesOfAll_starts inRest
      exact List.cons_lt_cons_iff.mpr (.inl later)

end

theorem mem_of_prefix_of_mem_left {tree : SyntaxTree} {earlier later : List Address}
    (split : tree.addresses = earlier ++ later) {above address : Address}
    (path : above <+: address) (found : address ∈ earlier) : above ∈ earlier := by
  have inside : above ∈ tree.addresses := by
    rw [mem_addresses]
    exact isSome_at?_of_prefix path ((mem_addresses tree address).mp (by simp [split, found]))
  rw [split, List.mem_append] at inside
  refine inside.resolve_right fun behind => ?_
  -- A node is listed before those below it, so it cannot stand behind one of them.
  have ascending := addresses_ascending tree
  rw [split, List.pairwise_append] at ascending
  exact List.not_lt.mpr path.le (ascending.2.2 address found above behind)

end SyntaxTree

end CodeInventory
