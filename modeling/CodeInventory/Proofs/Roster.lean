import Mathlib.Data.List.Induction
import Mathlib.Data.List.Perm.Basic
import CodeInventory.Roster

set_option autoImplicit false

namespace CodeInventory

theorem not_precedes_of_precedes {a b : String} (before : Precedes a b) : ¬ Precedes b a :=
  fun behind => not_precedes_self a (precedes_trans before behind)

theorem lookup_eq_some_iff_mem {entries : List (String × Chunk)} (ascending : Ascending entries)
    (name : String) (chunk : Chunk) :
    entries.lookup name = some chunk ↔ (name, chunk) ∈ entries := by
  induction entries with
  | nil => simp
  | cons head rest ih =>
    obtain ⟨first, held⟩ := head
    have ⟨below, tail⟩ := List.pairwise_cons.mp ascending
    by_cases same : name = first
    · subst same
      have absent : (name, chunk) ∉ rest := fun found => not_precedes_self name (below _ found)
      simp [absent, eq_comm]
    · have skipped : (name == first) = false := beq_eq_false_iff_ne.mpr same
      simp [List.lookup_cons, skipped, same, ih tail]

namespace Roster

theorem get?_eq_some_iff (roster : Roster) (name : String) (chunk : Chunk) :
    roster.get? name = some chunk ↔ (name, chunk) ∈ roster.entries :=
  lookup_eq_some_iff_mem roster.ascending name chunk

theorem entries_nodup (roster : Roster) : roster.entries.Nodup := by
  refine roster.ascending.imp ?_
  intro left right before same
  subst same
  exact not_precedes_self left.1 before

theorem ext_get? {left right : Roster} (same : ∀ name, left.get? name = right.get? name) :
    left = right := by
  have members : ∀ entry, entry ∈ left.entries ↔ entry ∈ right.entries := by
    intro (name, chunk)
    rw [← get?_eq_some_iff, ← get?_eq_some_iff, same]
  have permuted : left.entries.Perm right.entries :=
    (List.perm_ext_iff_of_nodup left.entries_nodup right.entries_nodup).mpr members
  have entries : left.entries = right.entries :=
    permuted.eq_of_pairwise
      (fun _ _ _ _ before behind => absurd behind (not_precedes_of_precedes before))
      left.ascending right.ascending
  cases left
  cases right
  cases entries
  rfl

theorem put_of_above {name : String} {chunk : Chunk} {entries : List (String × Chunk)}
    (above : ∀ entry ∈ entries, Precedes entry.1 name) :
    put name chunk entries = entries ++ [(name, chunk)] := by
  induction entries with
  | nil => rfl
  | cons head rest ih =>
    obtain ⟨first, others⟩ := List.forall_mem_cons.mp above
    have different : name ≠ head.1 := by
      rintro rfl
      exact not_precedes_self _ first
    rw [put, if_neg different, if_neg (not_precedes_of_precedes first), ih others, List.cons_append]

theorem entries_ofList {entries : List (String × Chunk)} (ascending : Ascending entries) :
    (ofList entries).entries = entries := by
  induction entries using List.reverseRecOn with
  | nil => rfl
  | append_singleton before entry ih =>
    obtain ⟨front, -, above⟩ := List.pairwise_append.mp ascending
    rw [ofList, List.foldl_append, ← ofList]
    change put entry.1 entry.2 (ofList before).entries = _
    rw [ih front]
    exact put_of_above fun earlier found => above earlier found entry (by simp)

theorem ofList_entries (roster : Roster) : ofList roster.entries = roster :=
  ext_get? fun name => by rw [get?, get?, entries_ofList roster.ascending]

theorem mem_chunks (roster : Roster) (chunk : Chunk) :
    chunk ∈ roster.chunks ↔ ∃ name, roster.get? name = some chunk := by
  simp [chunks, get?_eq_some_iff]

end Roster

end CodeInventory
