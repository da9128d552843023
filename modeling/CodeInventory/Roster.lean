import CodeInventory.Chunk
import CodeInventory.Text.Utf8

set_option autoImplicit false

namespace CodeInventory

def Precedes (left right : String) : Prop :=
  Text.octets left < Text.octets right

instance (left right : String) : Decidable (Precedes left right) :=
  List.decidableLT (Text.octets left) (Text.octets right)

theorem octets_injective {left right : String} (same : Text.octets left = Text.octets right) :
    left = right := by
  unfold Text.octets String.toUTF8 at same
  rw [← String.toByteArray_inj]
  exact ByteArray.ext (Array.toList_inj.mp same)

theorem precedes_trans {a b c : String} (ab : Precedes a b) (bc : Precedes b c) : Precedes a c :=
  List.lt_trans ab bc

theorem not_precedes_self (a : String) : ¬ Precedes a a :=
  List.lt_irrefl _

theorem precedes_of_not {a b : String} (different : a ≠ b) (behind : ¬ Precedes a b) :
    Precedes b a :=
  Decidable.byContradiction fun after =>
    different (octets_injective (List.le_antisymm after behind))

abbrev Ascending (entries : List (String × Chunk)) : Prop :=
  entries.Pairwise fun left right => Precedes left.1 right.1

structure Roster where
  entries : List (String × Chunk)
  ascending : Ascending entries
deriving DecidableEq

namespace Roster

def put (name : String) (chunk : Chunk) : List (String × Chunk) → List (String × Chunk)
  | [] => [(name, chunk)]
  | entry :: rest =>
      if name = entry.1 then (name, chunk) :: rest
      else if Precedes name entry.1 then (name, chunk) :: entry :: rest
      else entry :: put name chunk rest

theorem mem_put {name : String} {chunk : Chunk} {entries : List (String × Chunk)}
    {entry : String × Chunk} (found : entry ∈ put name chunk entries) :
    entry = (name, chunk) ∨ entry ∈ entries := by
  induction entries with
  | nil => simpa [put] using found
  | cons head rest ih =>
    unfold put at found
    split at found
    next => grind
    next =>
      split at found
      next => grind
      next =>
        rcases List.mem_cons.mp found with same | later
        · exact .inr (same ▸ List.mem_cons_self)
        · exact (ih later).imp_right (List.mem_cons_of_mem _)

theorem ascending_put (name : String) (chunk : Chunk) {entries : List (String × Chunk)}
    (ascending : Ascending entries) : Ascending (put name chunk entries) := by
  induction entries with
  | nil => simp [put, Ascending]
  | cons head rest ih =>
    have ⟨below, tail⟩ := List.pairwise_cons.mp ascending
    unfold put
    split
    next same =>
      exact List.pairwise_cons.mpr ⟨fun entry found => same ▸ below entry found, tail⟩
    next different =>
      split
      next before =>
        refine List.pairwise_cons.mpr ⟨fun entry found => ?_, ascending⟩
        rcases List.mem_cons.mp found with same | later
        · exact same ▸ before
        · exact precedes_trans before (below entry later)
      next behind =>
        refine List.pairwise_cons.mpr ⟨fun entry found => ?_, ih tail⟩
        rcases mem_put found with same | later
        · exact same ▸ precedes_of_not different behind
        · exact below entry later

def empty : Roster :=
  ⟨[], List.Pairwise.nil⟩

instance : Inhabited Roster :=
  ⟨empty⟩

def get? (roster : Roster) (name : String) : Option Chunk :=
  roster.entries.lookup name

def insert (roster : Roster) (name : String) (chunk : Chunk) : Roster :=
  ⟨put name chunk roster.entries, ascending_put name chunk roster.ascending⟩

@[simp]
theorem get?_empty (name : String) : empty.get? name = none :=
  rfl

theorem lookup_put (name : String) (chunk : Chunk) (other : String)
    (entries : List (String × Chunk)) :
    (put name chunk entries).lookup other =
      if other = name then some chunk else entries.lookup other := by
  induction entries with
  | nil => grind [put]
  | cons head rest ih =>
    unfold put
    grind

@[simp]
theorem get?_insert (roster : Roster) (name : String) (chunk : Chunk) (other : String) :
    (roster.insert name chunk).get? other =
      if other = name then some chunk else roster.get? other :=
  lookup_put name chunk other roster.entries

-- Later entries win over earlier ones of the same name.
def ofList (entries : List (String × Chunk)) : Roster :=
  entries.foldl (fun roster entry => roster.insert entry.1 entry.2) empty

def size (roster : Roster) : Nat :=
  roster.entries.length

def names (roster : Roster) : List String :=
  roster.entries.map Prod.fst

def chunks (roster : Roster) : List Chunk :=
  roster.entries.map Prod.snd

end Roster

end CodeInventory
