import Mathlib.Data.List.TakeWhile
import CodeInventory.Config

set_option autoImplicit false

namespace CodeInventory

namespace Text

variable {left right : String} {before chars after : List Char} {c : Char}

theorem toLower_cases (c : Char) :
    ((0x41 ≤ c.toNat ∧ c.toNat ≤ 0x5A) ∧ c.toLower.toNat = c.toNat + 32) ∨ c.toLower = c := by
  unfold Char.toLower
  split
  next upper =>
    left
    have bounds : 0x41 ≤ c.toNat ∧ c.toNat ≤ 0x5A := upper
    refine ⟨bounds, ?_⟩
    have total : (c.val + 32).toNat = c.toNat + 32 := by
      rw [UInt32.toNat_add]
      exact Nat.mod_eq_of_lt (show c.toNat + 32 < 2 ^ 32 by omega)
    exact total
  next => exact .inr rfl

theorem toLower_eq_kelvinSign_iff : c.toLower = kelvinSign ↔ c = kelvinSign := by
  rcases toLower_cases c with ⟨bounds, lowered⟩ | same
  · have high : kelvinSign.toNat = 0x212A := rfl
    constructor
    · intro same
      rw [same] at lowered
      omega
    · rintro rfl
      omega
  · rw [same]

theorem lowerChar_eq (c : Char) :
    lowerChar c = if c.toLower = kelvinSign then 'k' else c.toLower := by
  simp only [lowerChar, toLower_eq_kelvinSign_iff]

theorem not_isBlank_of_letter (bounds : 0x41 ≤ c.toNat ∧ c.toNat ≤ 0x7A) : isBlank c = false := by
  simp only [isBlank, blankRanges, List.any_cons, List.any_nil, Bool.or_false, Bool.or_eq_false_iff,
    Bool.and_eq_false_iff, decide_eq_false_iff_not]
  omega

theorem isBlank_lowerChar (c : Char) : isBlank (lowerChar c) = isBlank c := by
  by_cases kelvin : c = kelvinSign
  · subst kelvin
    decide
  · rw [lowerChar, if_neg kelvin]
    rcases toLower_cases c with ⟨bounds, lowered⟩ | same
    · rw [not_isBlank_of_letter (by omega), not_isBlank_of_letter (by omega)]
    · rw [same]

theorem map_lowerChar_eq (same : sameIgnoringCase left right) :
    left.toList.map lowerChar = right.toList.map lowerChar := by
  have folded (chars : List Char) : chars.map lowerChar =
      (chars.map Char.toLower).map fun c => if c = kelvinSign then 'k' else c := by
    simp [lowerChar_eq]
  rw [folded, folded, eq_of_beq same]

theorem trimChars_map_lowerChar (chars : List Char) :
    trimChars (chars.map lowerChar) = (trimChars chars).map lowerChar := by
  have blank : isBlank ∘ lowerChar = isBlank := funext isBlank_lowerChar
  simp only [trimChars, List.dropWhile_map, ← List.map_reverse, blank]

theorem trimChars_padded (first : ∀ c ∈ before, isBlank c) (last : ∀ c ∈ after, isBlank c) :
    trimChars (before ++ chars ++ after) = trimChars chars := by
  have last' : ∀ c ∈ after.reverse, isBlank c := by simpa using last
  rw [trimChars, List.append_assoc, List.dropWhile_append_of_pos first, List.dropWhile_append]
  split
  next nothing =>
    rw [trimChars, List.isEmpty_iff.mp nothing, List.dropWhile_eq_nil_iff.mpr last]
  next => rw [List.reverse_append, List.dropWhile_append_of_pos last', trimChars]

theorem dropWhile_isBlank_of_visible (visible : ∀ c ∈ chars, ¬ isBlank c) :
    chars.dropWhile isBlank = chars := by
  cases chars with
  | nil => rfl
  | cons c rest => exact List.dropWhile_cons_of_neg (visible c List.mem_cons_self)

theorem trimChars_of_visible (visible : ∀ c ∈ chars, ¬ isBlank c) : trimChars chars = chars := by
  rw [trimChars, dropWhile_isBlank_of_visible visible,
    dropWhile_isBlank_of_visible (by simpa using visible), List.reverse_reverse]

end Text

namespace Language

open Text

variable {text : String} {language : Language}

theorem mem_of_lookup {entries : List (String × Language)}
    (found : entries.lookup text = some language) : (text, language) ∈ entries := by
  obtain ⟨earlier, later, split, -⟩ := List.lookup_eq_some_iff.mp found
  simp [split]

theorem identifiers_lookup_name (known : language ≠ .unknown) :
    identifiers.lookup (lower language.name) = some language := by
  cases language <;> first | contradiction | decide

theorem tables_agree : ∀ entry ∈ identifiers, ∀ other ∈ extensions,
    entry.1 = other.1 → entry.2 = other.2 := by
  decide

theorem extensions_visible : ∀ entry ∈ extensions, ∀ c ∈ entry.1.toList, ¬ isBlank c := by
  have checked : extensions.all fun entry => entry.1.toList.all fun c => !isBlank c := by decide
  simpa using checked

theorem ofIdentifier?_of_admits {config : Config} (only : config.supportedLanguages = [text])
    (known : language ≠ .unknown) (admitted : config.admits language) :
    ofIdentifier? text = some language := by
  have same : sameIgnoringCase (trim text) language.name := by
    simpa [Config.admits, only] using admitted
  have lowered : lower (trim text) = lower language.name :=
    congrArg String.ofList (map_lowerChar_eq same)
  rw [ofIdentifier?, lowered, identifiers_lookup_name known]

theorem trim_of_extension (found : extensions.lookup (lower text) = some language) :
    trim text = text := by
  have visible : ∀ c ∈ text.toList, ¬ isBlank c := by
    intro c member
    rw [← isBlank_lowerChar]
    apply extensions_visible _ (mem_of_lookup found)
    rw [lower, String.toList_ofList]
    exact List.mem_map_of_mem member
  rw [trim, trimChars_of_visible visible, String.ofList_toList]

theorem ofExtension_eq_of_ofIdentifier? (identified : ofIdentifier? text = some language)
    (known : ofExtension text ≠ .unknown) : ofExtension text = language := by
  cases found : extensions.lookup (lower text) with
  | none => simp [ofExtension, found] at known
  | some other =>
    -- An extension has no blanks, so the identifier was looked up as it stands.
    rw [ofIdentifier?, trim_of_extension found] at identified
    rw [ofExtension, found, Option.getD_some]
    exact (tables_agree _ (mem_of_lookup identified) _ (mem_of_lookup found) rfl).symm

theorem ofIdentifier?_padded {before varied after : String}
    (first : ∀ c ∈ before.toList, isBlank c) (same : sameIgnoringCase varied text)
    (last : ∀ c ∈ after.toList, isBlank c) :
    ofIdentifier? (before ++ varied ++ after) = ofIdentifier? text := by
  have trimmed : lower (trim (before ++ varied ++ after)) = lower (trim text) := by
    simp only [lower, trim, String.toList_ofList, String.toList_append]
    rw [trimChars_padded first last, ← trimChars_map_lowerChar, ← trimChars_map_lowerChar,
      map_lowerChar_eq same]
  rw [ofIdentifier?, trimmed, ofIdentifier?]

/-- A text that alone is admitted lets in no other language than the one it identifies. As an
extension and as an identifier it stands for one language, if for any. Neither blanks around it nor
the case of ASCII letters changes what it identifies. -/
theorem recognitions_cohere (text : String) :
    (∀ (config : Config) language, config.supportedLanguages = [text] → language ≠ .unknown →
        config.admits language → ofIdentifier? text = some language) ∧
      (∀ language, ofIdentifier? text = some language → ofExtension text ≠ .unknown →
        ofExtension text = language) ∧
      ∀ language, ofIdentifier? text = some language → ∀ before varied after : String,
        (∀ c ∈ before.toList, isBlank c) → sameIgnoringCase varied text →
          (∀ c ∈ after.toList, isBlank c) →
            ofIdentifier? (before ++ varied ++ after) = some language := by
  refine ⟨fun config language => ofIdentifier?_of_admits,
    fun language => ofExtension_eq_of_ofIdentifier?, ?_⟩
  intro language identified before varied after first same last
  rw [ofIdentifier?_padded first same last, identified]

theorem recognitions_cohere_kelvin :
    ofIdentifier? "\u212aT" = some .kotlin ∧ ofExtension "\u212aT" = .kotlin ∧
      ofIdentifier? ("\u3000" ++ "\u212at" ++ "\t") = some .kotlin ∧
      Config.admits ⟨[" KOTLIN"], .error, 1, true⟩ .kotlin ∧
      ofIdentifier? " KOTLIN" = some .kotlin := by
  have identified : ofIdentifier? "\u212aT" = some .kotlin := by decide
  have admitted : Config.admits ⟨[" KOTLIN"], .error, 1, true⟩ .kotlin := by decide
  obtain ⟨-, extension, padded⟩ := recognitions_cohere "\u212aT"
  refine ⟨identified, extension .kotlin identified (by decide),
    padded .kotlin identified "\u3000" "\u212at" "\t" (List.all_eq_true.mp (by decide)) (by decide)
      (List.all_eq_true.mp (by decide)), admitted, ?_⟩
  exact (recognitions_cohere " KOTLIN").1 _ .kotlin rfl (by decide) admitted

end Language

end CodeInventory
