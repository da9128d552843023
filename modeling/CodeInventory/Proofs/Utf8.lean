import CodeInventory.Text.Utf8

set_option autoImplicit false

namespace CodeInventory.Text

def encode (chars : List Char) : List UInt8 :=
  chars.flatMap String.utf8EncodeChar

def width : List Char → Nat
  | [] => 0
  | c :: rest => c.utf8Size + width rest

theorem octets_eq_encode (text : String) : octets text = encode text.toList := by
  rw [octets, String.toUTF8_eq_toByteArray, ← String.utf8Encode_toList]
  simp [List.utf8Encode, encode]

theorem encode_cons (c : Char) (rest : List Char) :
    encode (c :: rest) = String.utf8EncodeChar c ++ encode rest :=
  List.flatMap_cons

theorem encode_append (earlier later : List Char) :
    encode (earlier ++ later) = encode earlier ++ encode later :=
  List.flatMap_append

theorem width_append (earlier later : List Char) :
    width (earlier ++ later) = width earlier + width later := by
  induction earlier with
  | nil => simp [width]
  | cons c rest ih => simp [width, ih, Nat.add_assoc]

theorem length_encode (chars : List Char) : (encode chars).length = width chars := by
  induction chars with
  | nil => rfl
  | cons c rest ih => simpa [encode, width] using ih

theorem toNat_octet {octet : Nat} (bound : octet < 0x100) : (UInt8.ofNat octet).toNat = octet := by
  simpa using bound

-- The bits of a character are read off its first octet and then six at a time.
variable {bits six missing low high v : Nat} {partway : Partway}

theorem decodeFrom_one (ascii : v < 0x80) (rest : List UInt8) :
    decodeFrom none (UInt8.ofNat v :: rest) = some (Char.ofNat v) :: decodeFrom none rest := by
  have octet : (UInt8.ofNat v).toNat = v := toNat_octet (by omega)
  simp only [decodeFrom, feed, beginChar, octet, lead, if_pos ascii]
  rfl

theorem decodeFrom_lead {octet : Nat} (bound : octet < 0x100) (starts : lead octet = .more partway)
    (rest : List UInt8) :
    decodeFrom none (UInt8.ofNat octet :: rest) = decodeFrom (some partway) rest := by
  simp only [decodeFrom, feed, beginChar, toNat_octet bound, starts]
  rfl

theorem feed_tail (lower : low ≤ six + 0x80) (upper : six + 0x80 ≤ high) :
    feed (six + 0x80) (some ⟨bits, missing + 1, low, high⟩) =
      if missing = 0 then ([some (Char.ofNat (bits * 64 + six))], none)
      else ([], some ⟨bits * 64 + six, missing, 0x80, 0xBF⟩) := by
  simp [feed, lower, upper]

theorem decodeFrom_more (tail : six < 64) (lower : low ≤ six + 0x80) (upper : six + 0x80 ≤ high)
    (rest : List UInt8) :
    decodeFrom (some ⟨bits, missing + 2, low, high⟩) (UInt8.ofNat (six + 0x80) :: rest) =
      decodeFrom (some ⟨bits * 64 + six, missing + 1, 0x80, 0xBF⟩) rest := by
  rw [decodeFrom, toNat_octet (by omega), feed_tail lower upper]
  rfl

theorem decodeFrom_last (tail : six < 64) (lower : low ≤ six + 0x80) (upper : six + 0x80 ≤ high)
    (rest : List UInt8) :
    decodeFrom (some ⟨bits, 1, low, high⟩) (UInt8.ofNat (six + 0x80) :: rest) =
      some (Char.ofNat (bits * 64 + six)) :: decodeFrom none rest := by
  rw [decodeFrom, toNat_octet (by omega), feed_tail lower upper]
  rfl

theorem lead_two (lower : 2 ≤ bits) (upper : bits < 0x20) :
    lead (bits + 0xC0) = .more ⟨bits, 1, 0x80, 0xBF⟩ := by
  grind [lead]

theorem lead_three (upper : bits < 0x10) :
    lead (bits + 0xE0) = .more ⟨bits, 2, if bits = 0 then 0xA0 else 0x80,
      if bits = 0xD then 0x9F else 0xBF⟩ := by
  grind [lead]

theorem lead_four (upper : bits < 5) :
    lead (bits + 0xF0) = .more ⟨bits, 3, if bits = 0 then 0x90 else 0x80,
      if bits = 4 then 0x8F else 0xBF⟩ := by
  grind [lead]

theorem decodeFrom_two (lower : 0x80 ≤ v) (upper : v < 0x800) (rest : List UInt8) :
    decodeFrom none (UInt8.ofNat (v / 64 % 32 + 0xC0) :: UInt8.ofNat (v % 64 + 0x80) :: rest) =
      some (Char.ofNat v) :: decodeFrom none rest := by
  calc
    _ = decodeFrom (some ⟨v / 64 % 32, 1, 0x80, 0xBF⟩) (UInt8.ofNat (v % 64 + 0x80) :: rest) :=
      decodeFrom_lead (by omega) (lead_two (by omega) (by omega)) _
    _ = some (Char.ofNat (v / 64 % 32 * 64 + v % 64)) :: decodeFrom none rest :=
      decodeFrom_last (by omega) (by omega) (by omega) rest
    _ = some (Char.ofNat v) :: decodeFrom none rest := by
      rw [show v / 64 % 32 * 64 + v % 64 = v by omega]

theorem decodeFrom_three (lower : 0x800 ≤ v) (upper : v < 0x10000)
    (valid : v < 0xD800 ∨ 0xDFFF < v) (rest : List UInt8) :
    decodeFrom none (UInt8.ofNat (v / 4096 % 16 + 0xE0) :: UInt8.ofNat (v / 64 % 64 + 0x80) ::
      UInt8.ofNat (v % 64 + 0x80) :: rest) = some (Char.ofNat v) :: decodeFrom none rest := by
  calc
    _ = decodeFrom (some ⟨v / 4096 % 16, 2, if v / 4096 % 16 = 0 then 0xA0 else 0x80,
          if v / 4096 % 16 = 0xD then 0x9F else 0xBF⟩)
        (UInt8.ofNat (v / 64 % 64 + 0x80) :: UInt8.ofNat (v % 64 + 0x80) :: rest) :=
      decodeFrom_lead (by omega) (lead_three (by omega)) _
    -- Neither a value with a shorter form nor a surrogate fits these bounds.
    _ = decodeFrom (some ⟨v / 4096 % 16 * 64 + v / 64 % 64, 1, 0x80, 0xBF⟩)
        (UInt8.ofNat (v % 64 + 0x80) :: rest) :=
      decodeFrom_more (by omega) (by split <;> omega) (by split <;> omega) _
    _ = some (Char.ofNat ((v / 4096 % 16 * 64 + v / 64 % 64) * 64 + v % 64)) ::
        decodeFrom none rest :=
      decodeFrom_last (by omega) (by omega) (by omega) rest
    _ = some (Char.ofNat v) :: decodeFrom none rest := by
      rw [show (v / 4096 % 16 * 64 + v / 64 % 64) * 64 + v % 64 = v by omega]

theorem decodeFrom_four (lower : 0x10000 ≤ v) (upper : v < 0x110000) (rest : List UInt8) :
    decodeFrom none (UInt8.ofNat (v / 262144 % 8 + 0xF0) :: UInt8.ofNat (v / 4096 % 64 + 0x80) ::
      UInt8.ofNat (v / 64 % 64 + 0x80) :: UInt8.ofNat (v % 64 + 0x80) :: rest) =
      some (Char.ofNat v) :: decodeFrom none rest := by
  calc
    _ = decodeFrom (some ⟨v / 262144 % 8, 3, if v / 262144 % 8 = 0 then 0x90 else 0x80,
          if v / 262144 % 8 = 4 then 0x8F else 0xBF⟩)
        (UInt8.ofNat (v / 4096 % 64 + 0x80) :: UInt8.ofNat (v / 64 % 64 + 0x80) ::
          UInt8.ofNat (v % 64 + 0x80) :: rest) :=
      decodeFrom_lead (by omega) (lead_four (by omega)) _
    _ = decodeFrom (some ⟨v / 262144 % 8 * 64 + v / 4096 % 64, 2, 0x80, 0xBF⟩)
        (UInt8.ofNat (v / 64 % 64 + 0x80) :: UInt8.ofNat (v % 64 + 0x80) :: rest) :=
      decodeFrom_more (by omega) (by split <;> omega) (by split <;> omega) _
    _ = decodeFrom (some ⟨(v / 262144 % 8 * 64 + v / 4096 % 64) * 64 + v / 64 % 64, 1, 0x80, 0xBF⟩)
        (UInt8.ofNat (v % 64 + 0x80) :: rest) :=
      decodeFrom_more (by omega) (by omega) (by omega) _
    _ = some (Char.ofNat (((v / 262144 % 8 * 64 + v / 4096 % 64) * 64 + v / 64 % 64) * 64 +
          v % 64)) :: decodeFrom none rest :=
      decodeFrom_last (by omega) (by omega) (by omega) rest
    _ = some (Char.ofNat v) :: decodeFrom none rest := by
      rw [show ((v / 262144 % 8 * 64 + v / 4096 % 64) * 64 + v / 64 % 64) * 64 + v % 64 = v by
        omega]

theorem decodeFrom_encode_cons (c : Char) (rest : List UInt8) :
    decodeFrom none (String.utf8EncodeChar c ++ rest) = some c :: decodeFrom none rest := by
  have valid : c.val.toNat < 0xD800 ∨ (0xDFFF < c.val.toNat ∧ c.val.toNat < 0x110000) := c.valid
  have value : Char.ofNat c.val.toNat = c := Char.ofNat_toNat c
  refine Eq.trans ?_ (congrArg (fun same => some same :: decodeFrom none rest) value)
  fun_cases String.utf8EncodeChar c
  case case1 one => exact decodeFrom_one (by omega) rest
  case case2 one two => exact decodeFrom_two (by omega) (by omega) rest
  case case3 one two three =>
    exact decodeFrom_three (by omega) (by omega) (valid.imp_right And.left) rest
  case case4 one two three => exact decodeFrom_four (by omega) (by omega) rest

theorem decode_encode (chars : List Char) : decode (encode chars) = chars.map some := by
  induction chars with
  | nil => rfl
  | cons c rest ih =>
    rw [encode_cons, decode, decodeFrom_encode_cons]
    exact congrArg (some c :: ·) ih

theorem decodeLenient_encode (chars : List Char) :
    decodeLenient (encode chars) = String.ofList chars := by
  simp [decodeLenient, decode_encode, Function.comp_def]

theorem low_of_lead {octet : Nat} (starts : lead octet = .more partway) : 0x80 ≤ partway.low := by
  grind [lead]

theorem beginChar_waits (octet : Nat) : ∀ rest ∈ (beginChar octet).2, 0x80 ≤ rest.low := by
  intro rest found
  cases starts : lead octet with
  | complete c => simp [beginChar, starts] at found
  | invalid => simp [beginChar, starts] at found
  | more next =>
    obtain rfl : next = rest := by simpa [beginChar, starts] using found
    exact low_of_lead starts

theorem feed_waits (octet : Nat) (before : Option Partway) :
    ∀ rest ∈ (feed octet before).2, 0x80 ≤ rest.low := by
  cases before with
  | none => exact beginChar_waits octet
  | some current =>
    rw [feed]
    split
    next =>
      split
      next => simp
      next => simp
    next => exact beginChar_waits octet

theorem mem_feed_of_ascii {octet : Nat} {before : Option Partway} (ascii : octet < 0x80)
    (waits : ∀ rest ∈ before, 0x80 ≤ rest.low) :
    some (Char.ofNat octet) ∈ (feed octet before).1 := by
  have begun : beginChar octet = ([some (Char.ofNat octet)], none) := by
    simp [beginChar, lead, ascii]
  cases before with
  | none => simp [feed, begun]
  | some current =>
    have lower : 0x80 ≤ current.low := waits current rfl
    have outside : ¬ (current.low ≤ octet ∧ octet ≤ current.high) := by omega
    simp [feed, outside, begun]

-- An octet of ASCII is a character wherever it stands, also in a text that is ill-formed.
theorem mem_decodeFrom_of_ascii {octet : UInt8} {octets : List UInt8} {before : Option Partway}
    (ascii : octet.toNat < 0x80) (waits : ∀ rest ∈ before, 0x80 ≤ rest.low)
    (member : octet ∈ octets) : some (Char.ofNat octet.toNat) ∈ decodeFrom before octets := by
  induction octets generalizing before with
  | nil => cases member
  | cons head rest ih =>
    rw [decodeFrom, List.mem_append]
    rcases List.mem_cons.mp member with rfl | later
    · exact .inl (mem_feed_of_ascii ascii waits)
    · exact .inr (ih (feed_waits _ _) later)

theorem octets_extract {text : String} {before inside after : List Char}
    (split : text.toList = before ++ (inside ++ after)) :
    (text.toUTF8.extract (width before) (width (before ++ inside))).data.toList = encode inside := by
  have octets : text.toUTF8.data.toList = encode before ++ (encode inside ++ encode after) := by
    rw [← encode_append, ← encode_append, ← split]
    exact octets_eq_encode text
  rw [ByteArray.data_extract, Array.toList_extract, octets, width_append, ← length_encode,
    ← length_encode]
  simp [List.extract_eq_take_drop]

theorem decodeLenient_extract {text : String} {before inside after : List Char}
    (split : text.toList = before ++ (inside ++ after)) :
    decodeLenient ((text.toUTF8.extract (width before) (width (before ++ inside))).data.toList) =
      String.ofList inside := by
  rw [octets_extract split, decodeLenient_encode]

end CodeInventory.Text
