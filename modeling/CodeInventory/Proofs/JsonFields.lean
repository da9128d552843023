import Mathlib.Data.List.Forall2
import CodeInventory.Json

set_option autoImplicit false

namespace CodeInventory.Json

theorem mapM_map {α β : Type} {write : α → β} {read? : β → Option α} {values : List α}
    (reads : ∀ value ∈ values, read? (write value) = some value) :
    (values.map write).mapM read? = some values := by
  induction values with
  | nil => rfl
  | cons value rest ih =>
    obtain ⟨first, others⟩ := List.forall_mem_cons.mp reads
    simp [first, ih others]

theorem mapM_eq_of_forall₂ {α β : Type} {alike : α → α → Prop} {read? : α → Option β}
    {left right : List α} (items : List.Forall₂ alike left right)
    (reads : ∀ first second, alike first second → read? first = read? second) :
    left.mapM read? = right.mapM read? := by
  induction items with
  | nil => rfl
  | cons first _ ih => simp [reads _ _ first, ih]

theorem bind_eq_of_rel {α β : Type} {alike : α → α → Prop} {left right : Option α}
    (rel : Option.Rel alike left right) {next : α → Option β}
    (reads : ∀ first second, alike first second → next first = next second) :
    left.bind next = right.bind next := by
  cases rel with
  | none => rfl
  | some same => exact reads _ _ same

theorem get?_of_values {fields : List (String × Json)} {key : String} {value : Json}
    (once : valuesUnder fields key = [value]) : get? fields key = some value := by
  simp [get?, once]

theorem get?_of_length {fields : List (String × Json)} {key : String}
    (other : (valuesUnder fields key).length ≠ 1) : get? fields key = none := by
  unfold get?
  split
  next value once => simp [once] at other
  next => rfl

-- Each slot has alike values under its key on both sides, in any order. The order of the keys does
-- not matter either, and neither do other keys.
def SameFields {Slot : Type} (slots : List Slot) (key : Slot → String)
    (alike : Slot → Json → Json → Prop) (left right : List (String × Json)) : Prop :=
  ∀ slot ∈ slots, ∃ values, (valuesUnder left (key slot)).Perm values ∧
    List.Forall₂ (alike slot) values (valuesUnder right (key slot))

inductive AlikeObjects {Slot : Type} (slots : List Slot) (key : Slot → String)
    (alike : Slot → Json → Json → Prop) : Json → Json → Prop where
  | same (json : Json) : AlikeObjects slots key alike json json
  | object {left right : List (String × Json)} (fields : SameFields slots key alike left right) :
      AlikeObjects slots key alike (.object left) (.object right)

inductive AlikeArrays (alike : Json → Json → Prop) : Json → Json → Prop where
  | same (json : Json) : AlikeArrays alike json json
  | array {left right : List Json} (items : List.Forall₂ alike left right) :
      AlikeArrays alike (.array left) (.array right)

theorem AlikeArrays.list?_eq {alike : Json → Json → Prop} {left right : Json}
    (arrays : AlikeArrays alike left right) {α : Type} {item? : Json → Option α}
    (reads : ∀ first second, alike first second → item? first = item? second) :
    left.list? item? = right.list? item? := by
  cases arrays with
  | same => rfl
  | array items => exact mapM_eq_of_forall₂ items reads

section

variable {Slot : Type} {slots : List Slot} {key : Slot → String}
  {alike : Slot → Json → Json → Prop} {left right : List (String × Json)}

theorem SameFields.get? (same : SameFields slots key alike left right) {slot : Slot}
    (known : slot ∈ slots) :
    Option.Rel (alike slot) (get? left (key slot)) (get? right (key slot)) := by
  obtain ⟨values, perm, items⟩ := same slot known
  have length : (valuesUnder left (key slot)).length = (valuesUnder right (key slot)).length :=
    perm.length_eq.trans items.length_eq
  by_cases once : (valuesUnder right (key slot)).length = 1
  · obtain ⟨second, held⟩ := List.length_eq_one_iff.mp once
    rw [held] at items
    obtain ⟨first, rest, reads, nothing, rfl⟩ := List.forall₂_cons_right_iff.mp items
    obtain rfl := List.forall₂_nil_right_iff.mp nothing
    rw [get?_of_values (List.perm_singleton.mp perm), get?_of_values held]
    exact .some reads
  -- A key that is absent or repeated is refused on both sides.
  · rw [get?_of_length once, get?_of_length (length ▸ once)]
    exact .none

theorem SameFields.get?_eq (same : SameFields slots key (fun _ => Eq) left right) {slot : Slot}
    (known : slot ∈ slots) : Json.get? left (key slot) = Json.get? right (key slot) := by
  simpa using bind_eq_of_rel (same.get? known) fun _ _ equal => congrArg some equal

theorem SameFields.of_values (refl : ∀ slot json, alike slot json json)
    (perm : ∀ slot ∈ slots,
      (valuesUnder left (key slot)).Perm (valuesUnder right (key slot))) :
    SameFields slots key alike left right := fun slot known =>
  ⟨valuesUnder right (key slot), perm slot known, List.forall₂_same.mpr fun json _ => refl slot json⟩

theorem valuesUnder_filter {slot : Slot} (known : slot ∈ slots) (fields : List (String × Json)) :
    valuesUnder (fields.filter fun field => field.1 ∈ slots.map key) (key slot) =
      valuesUnder fields (key slot) := by
  have under (field : String × Json) :
      (key slot == field.1 && decide (field.1 ∈ slots.map key)) = (key slot == field.1) := by
    rw [Bool.and_eq_left_iff_imp, beq_iff_eq, decide_eq_true_eq]
    intro same
    exact same ▸ List.mem_map_of_mem known
  simp only [valuesUnder, List.filter_filter, under]

-- Fields keep their meaning when they change places and when fields under other keys are put among
-- them.
theorem SameFields.of_perm (refl : ∀ slot json, alike slot json json)
    (perm : (left.filter fun field => field.1 ∈ slots.map key).Perm
      (right.filter fun field => field.1 ∈ slots.map key)) :
    SameFields slots key alike left right := by
  apply SameFields.of_values refl
  intro slot known
  rw [← valuesUnder_filter known left, ← valuesUnder_filter known right]
  exact (perm.filter _).map _

end

end CodeInventory.Json
