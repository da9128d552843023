import Mathlib.Data.List.Chain
import CodeInventory.Json.Token

set_option autoImplicit false

namespace CodeInventory.Json

open Text

theorem hexValue?_hexDigit : ∀ digit < 16, hexValue? (hexDigit digit) = some digit := by
  decide

namespace Token

open Scan

theorem foldlM_append_of_some {left right : List Char} {scan next : Scan}
    (reads : left.foldlM step? scan = some next) :
    (left ++ right).foldlM step? scan = right.foldlM step? next := by
  rw [List.foldlM_append, reads]
  rfl

theorem reads_escapeChar (chars : List Char) (tokens : List Token) (c : Char) :
    (escapeChar c).foldlM step? ⟨.text chars, tokens⟩ = some ⟨.text (c :: chars), tokens⟩ := by
  unfold escapeChar
  split_ifs with quote backslash feed carriage tab backspace formFeed control
  · subst quote; rfl
  · subst backslash; rfl
  · subst feed; rfl
  · subst carriage; rfl
  · subst tab; rfl
  · obtain rfl : c = '\x08' := Char.toNat_inj.mp backspace
    rfl
  · obtain rfl : c = '\x0c' := Char.toNat_inj.mp formFeed
    rfl
  · have high := hexValue?_hexDigit (c.toNat / 16) (by omega)
    have low := hexValue?_hexDigit (c.toNat % 16) (by omega)
    have value : c.toNat / 16 * 16 + c.toNat % 16 = c.toNat := by omega
    have zero : hexValue? '0' = some 0 := rfl
    have unpaired : ¬ 0xD800 ≤ c.toNat := by omega
    have unended : ¬ 0xDC00 ≤ c.toNat := by omega
    simp [step?, unit?, high, low, zero, value, unpaired, unended]
  · simp [step?, quote, backslash, control]

theorem reads_escape (text chars : List Char) (tokens : List Token) :
    (escape text).foldlM step? ⟨.text chars, tokens⟩ =
      some ⟨.text (text.reverse ++ chars), tokens⟩ := by
  induction text generalizing chars with
  | nil => rfl
  | cons c rest ih =>
    rw [escape, List.flatMap_cons, foldlM_append_of_some (reads_escapeChar chars tokens c)]
    rw [escape] at ih
    simp [ih]

def isWord : Token → Bool
  | .null | .bool _ | .nat _ | .number _ => true
  | _ => false

-- A number literal must read as itself; no other token can be written wrongly.
def Legible : Token → Prop
  | .number literal =>
      literal.toList.all isBare ∧ ofBare? literal.toList = some (.number literal)
  | _ => True

instance : DecidablePred Legible
  | .number _ => instDecidableAnd
  | .openArray | .closeArray | .openObject | .closeObject | .colon | .comma => .isTrue trivial
  | .null | .bool _ | .nat _ | .string _ => .isTrue trivial

theorem isBare_of_isDigit {c : Char} (digit : c.isDigit) : isBare c := by
  simp [isBare, Char.isAlphanum, digit]

theorem head?_toDigits {value : Nat} (positive : 0 < value) :
    (Nat.toDigits 10 value).head? ≠ some '0' := by
  induction value using Nat.strongRecOn with
  | ind value ih =>
    rw [Nat.toDigits_eq_if (by decide)]
    split
    · have nonzero : value ≠ 0 := by omega
      simp [Nat.digitChar_eq_zero, nonzero]
    · rw [List.head?_append_of_ne_nil _ Nat.toDigits_ne_nil]
      exact ih (value / 10) (by omega) (by omega)

theorem isWhole_toDigits (value : Nat) : isWhole (Nat.toDigits 10 value) := by
  rcases Nat.eq_zero_or_pos value with rfl | positive
  · rfl
  · have leading := head?_toDigits positive
    have digits : (Nat.toDigits 10 value).all Char.isDigit := by
      rw [List.all_eq_true]
      exact fun c member => Nat.isDigit_of_mem_toDigits (by decide) (by decide) member
    unfold isWhole
    split
    next none => exact absurd none Nat.toDigits_ne_nil
    next rest zero => simp [zero] at leading
    next => exact digits

theorem reads_word {token : Token} (word : token.isWord) (legible : token.Legible) :
    token.render.all isBare ∧ ofBare? token.render = some token := by
  cases token with
  | null => decide
  | bool value => cases value <;> decide
  | nat value =>
    have digit : ∀ c ∈ Nat.toDigits 10 value, c.isDigit := fun c member =>
      Nat.isDigit_of_mem_toDigits (by decide) (by decide) member
    refine ⟨List.all_eq_true.mpr fun c member => isBare_of_isDigit (digit c member), ?_⟩
    -- The words for the constants begin with letters.
    have other {c : Char} {rest : List Char} (letter : ¬ c.isDigit) :
        Nat.toDigits 10 value ≠ c :: rest := by
      intro same
      exact letter (digit c (same ▸ List.mem_cons_self))
    simp [render, ofBare?, other, isWhole_toDigits]
  | number literal => exact legible
  | _ => simp [isWord] at word

theorem begin?_bare {c : Char} (bare : isBare c) (tokens : List Token) :
    begin? tokens c = some ⟨.bare [c], tokens⟩ := by
  have space : isSpace c = false := by
    rw [← Bool.not_eq_true]
    intro blank
    simp only [isSpace, Bool.or_eq_true, beq_iff_eq] at blank
    rcases blank with ((rfl | rfl) | rfl) | rfl <;> simp [isBare] at bare
  have quote : c ≠ '"' := by
    rintro rfl
    simp [isBare] at bare
  simp [begin?, space, quote, bare]

theorem reads_bare {more : List Char} (bare : more.all isBare) (chars : List Char)
    (tokens : List Token) :
    more.foldlM step? ⟨.bare chars, tokens⟩ = some ⟨.bare (more.reverse ++ chars), tokens⟩ := by
  induction more generalizing chars with
  | nil => rfl
  | cons c rest ih =>
    obtain ⟨first, others⟩ := Bool.and_eq_true_iff.mp bare
    have read : step? ⟨.bare chars, tokens⟩ c = some ⟨.bare (c :: chars), tokens⟩ := by
      simp [step?, first]
    rw [List.foldlM_cons, read]
    simp [ih others]

inductive Spells : List Token → List Char → Prop where
  | nil : Spells [] []
  | space {c : Char} {tokens : List Token} {chars : List Char} (blank : isSpace c)
      (rest : Spells tokens chars) : Spells tokens (c :: chars)
  | token {token : Token} {tokens : List Token} {chars : List Char}
      (rest : Spells tokens chars) : Spells (token :: tokens) (token.render ++ chars)

theorem Spells.append {left right : List Token} {chars more : List Char}
    (first : Spells left chars) (second : Spells right more) :
    Spells (left ++ right) (chars ++ more) := by
  induction first with
  | nil => exact second
  | space blank _ ih => exact ih.space blank
  | token _ ih =>
    rw [List.append_assoc]
    exact ih.token

theorem Spells.single (token : Token) : Spells [token] token.render := by
  have alone : Spells [token] (token.render ++ []) := Spells.nil.token
  simpa using alone

abbrev Separated (tokens : List Token) : Prop :=
  tokens.IsChain fun left right => left.isWord → ¬ right.isWord

def EndsWord (chars : List Char) : Prop :=
  ∀ c ∈ chars.head?, ¬ isBare c

theorem Spells.endsWord {tokens : List Token} {chars : List Char} (spells : Spells tokens chars)
    (next : ∀ token ∈ tokens.head?, ¬ token.isWord) : EndsWord chars := by
  cases spells with
  | nil => simp [EndsWord]
  | space blank rest =>
    rintro c ⟨⟩ bare
    simp only [isSpace, Bool.or_eq_true, beq_iff_eq] at blank
    rcases blank with ((rfl | rfl) | rfl) | rfl <;> simp [isBare] at bare
  | @token token tokens chars rest =>
    have apart := next token rfl
    cases token <;> simp [isWord] at apart <;> rintro c ⟨⟩ <;> decide

def scanFrom (scan : Scan) (chars : List Char) : Option (List Token) := do
  (← chars.foldlM step? scan).finish?

theorem scanFrom_append {left right : List Char} {scan next : Scan}
    (reads : left.foldlM step? scan = some next) :
    scanFrom scan (left ++ right) = scanFrom next right := by
  rw [scanFrom, foldlM_append_of_some reads]
  rfl

theorem scanFrom_word {chars rest : List Char} {token : Token}
    (read : ofBare? chars.reverse = some token) (ends : EndsWord rest) (tokens : List Token) :
    scanFrom ⟨.bare chars, tokens⟩ rest = scanFrom ⟨.idle, token :: tokens⟩ rest := by
  cases rest with
  | nil => simp [scanFrom, finish?, read]
  | cons c rest =>
    have bare : isBare c = false := by simpa using ends c rfl
    simp [scanFrom, step?, bare, read]

theorem scanFrom_render {token : Token} (legible : token.Legible) {rest : List Char}
    (ends : token.isWord → EndsWord rest) (tokens : List Token) :
    scanFrom ⟨.idle, tokens⟩ (token.render ++ rest) = scanFrom ⟨.idle, token :: tokens⟩ rest := by
  by_cases word : token.isWord
  · obtain ⟨bare, read⟩ := reads_word word legible
    cases written : token.render with
    | nil => simp [written, ofBare?, isWhole, isNumber, isUnsigned] at read
    | cons c more =>
      rw [written] at bare read
      obtain ⟨first, others⟩ := Bool.and_eq_true_iff.mp bare
      have reads : (c :: more).foldlM step? ⟨.idle, tokens⟩ =
          some ⟨.bare (c :: more).reverse, tokens⟩ := by
        rw [List.foldlM_cons, step?, begin?_bare first]
        simp [reads_bare others]
      rw [scanFrom_append reads, scanFrom_word (by rwa [List.reverse_reverse]) (ends word)]
  · cases token with
    | string value =>
      have text : ('"' :: escape value.toList).foldlM step? ⟨.idle, tokens⟩ =
          some ⟨.text value.toList.reverse, tokens⟩ := by
        have opened : step? ⟨.idle, tokens⟩ '"' = some ⟨.text [], tokens⟩ := rfl
        rw [List.foldlM_cons, opened]
        simpa using reads_escape value.toList [] tokens
      have reads : (render (.string value)).foldlM step? ⟨.idle, tokens⟩ =
          some ⟨.idle, .string value :: tokens⟩ := by
        rw [render, foldlM_append_of_some text]
        simp [step?]
      exact scanFrom_append reads
    | openArray | closeArray | openObject | closeObject | colon | comma =>
      exact scanFrom_append rfl
    | _ => simp [isWord] at word

theorem scanFrom_of_spells {tokens : List Token} {chars : List Char} (spells : Spells tokens chars)
    (legible : ∀ token ∈ tokens, token.Legible) (separated : Separated tokens)
    (before : List Token) :
    scanFrom ⟨.idle, before⟩ chars = some (before.reverse ++ tokens) := by
  induction spells generalizing before with
  | nil => simp [scanFrom, finish?]
  | space blank rest ih =>
    rw [← ih legible separated before]
    simp [scanFrom, step?, begin?, blank]
  | @token token tokens chars rest ih =>
    obtain ⟨first, others⟩ := List.forall_mem_cons.mp legible
    have ends (word : token.isWord) : EndsWord chars := by
      apply rest.endsWord
      intro next isNext
      exact (List.isChain_cons.mp separated).1 next isNext word
    rw [scanFrom_render first ends, ih others (List.isChain_cons.mp separated).2]
    simp

theorem scan?_of_spells {tokens : List Token} {chars : List Char} (spells : Spells tokens chars)
    (legible : ∀ token ∈ tokens, token.Legible) (separated : Separated tokens) :
    scan? chars = some tokens :=
  scanFrom_of_spells spells legible separated []

end Token

end CodeInventory.Json
