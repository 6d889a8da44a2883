import CredSync.Protocol.Decoding
import CredSync.Protocol.Integrity

/-! What ties the two sides of a wire type together: everything valid is read back from
what it is written as, and whatever is read is valid. Each part of the format keeps these
laws, and the ways to put parts together keep them too. -/

namespace CredSync

/-- The rules of a wire type, at every depth of a value. -/
class Checked (α : Type) where
  Valid : α → Prop

open Checked (Valid)

/-- Encoder and decoder agree on the valid values that the room allows. -/
class Lawful (α : Type) [Serialize α] [Deserialize α] [Checked α] : Prop where
  reads : ∀ {room : Nat} {a : α}, Valid a → (Serialize.toValue a).depth ≤ room →
    Deserialize.read room (.ofValue (Serialize.toValue a)) = some a
  sound : ∀ {room : Nat} {json : Json} {a : α}, Deserialize.read room json = some a →
    Valid a ∧ (Serialize.toValue a).depth ≤ room
  notNull : ∀ a : α, Serialize.toValue a ≠ .null
  floatless : ∀ a : α, Canonical.hasFloat (Serialize.toValue a) = false

/-! ## Names, numbers and documents -/

/-- A bound that a `u64` can hold. -/
class Limits.Word (max : Nat) : Prop where
  lt : max < 2 ^ 64

instance : Limits.Word Limits.u16Max := ⟨by decide⟩
instance : Limits.Word Limits.seqMax := ⟨by decide⟩
instance : Limits.Word Limits.limitBytesMax := ⟨by decide⟩

/-- A charset within ASCII. -/
class Ascii (ok : UInt8 → Bool) : Prop where
  lt : ∀ b, ok b = true → b.toNat < 128

theorem isAsciiDigit_iff {b : UInt8} : isAsciiDigit b = true ↔ 48 ≤ b.toNat ∧ b.toNat ≤ 57 := by
  simp [isAsciiDigit, UInt8.le_iff_toNat_le]

theorem isAsciiLowercase_iff {b : UInt8} :
    isAsciiLowercase b = true ↔ 97 ≤ b.toNat ∧ b.toNat ≤ 122 := by
  simp [isAsciiLowercase, UInt8.le_iff_toNat_le]

theorem isAsciiUppercase_iff {b : UInt8} :
    isAsciiUppercase b = true ↔ 65 ≤ b.toNat ∧ b.toNat ≤ 90 := by
  simp [isAsciiUppercase, UInt8.le_iff_toNat_le]

instance : Ascii isScopeByte where
  lt b admitted := by
    simp only [isScopeByte, isAsciiAlphanumeric, Bool.or_eq_true, isAsciiDigit_iff,
      isAsciiLowercase_iff, isAsciiUppercase_iff, beq_iff_eq, ← UInt8.toNat_inj] at admitted
    simp at admitted
    omega

instance : Ascii isLowerSnake where
  lt b admitted := by
    simp only [isLowerSnake, Bool.or_eq_true, isAsciiDigit_iff, isAsciiLowercase_iff, beq_iff_eq,
      ← UInt8.toNat_inj] at admitted
    simp at admitted
    omega

instance : Ascii isEntityIdByte where
  lt b admitted := by
    simp [isEntityIdByte, UInt8.le_iff_toNat_le] at admitted
    omega

instance : Ascii isLowerHex where
  lt b admitted := by
    unfold isLowerHex hexNibble at admitted
    split at admitted
    case isTrue digit =>
      have bounds := isAsciiDigit_iff.mp digit
      omega
    case isFalse =>
      split at admitted
      case isTrue letter =>
        simp [UInt8.le_iff_toNat_le] at letter
        omega
      case isFalse => cases admitted

/-- ASCII text has the bytes it was made of. -/
theorem utf8_asText {s : Bytes} (within : ∀ b ∈ s, b.toNat < 128) : utf8 (asText s) = s := by
  rw [utf8, asText, String.toList_ofList]
  induction s with
  | nil => rfl
  | cons b rest ih =>
    have small : b.toNat < 128 := within b List.mem_cons_self
    have valid : b.toNat.isValidChar := .inl (Nat.lt_trans small (by decide))
    have code : (Char.ofNat b.toNat).toNat = b.toNat := by
      unfold Char.ofNat
      rw [dif_pos valid]
      rfl
    have first : String.utf8EncodeChar (Char.ofNat b.toNat) = [b] := by
      have one : (Char.ofNat b.toNat).val.toNat ≤ 127 := by
        change (Char.ofNat b.toNat).toNat ≤ 127
        omega
      unfold String.utf8EncodeChar
      simp only [one, if_true]
      change [(Char.ofNat b.toNat).toNat.toUInt8] = [b]
      rw [code]
      simp
    rw [List.map_cons, List.flatMap_cons, first,
      ih fun other member => within other (List.mem_cons_of_mem _ member)]
    rfl

theorem utf8_asText_of_all {ok : UInt8 → Bool} [ascii : Ascii ok] {s : Bytes}
    (admitted : s.all ok = true) : utf8 (asText s) = s :=
  utf8_asText fun b member => ascii.lt b (List.all_eq_true.mp admitted b member)

theorem toOption_eq_some {ε α : Type} {result : Except ε α} {a : α}
    (ok : result.toOption = some a) : result = .ok a := by
  cases result with
  | error => cases ok
  | ok => cases ok; rfl

instance : Checked Bool := ⟨fun _ => True⟩
instance : Lawful Bool where
  reads _ _ := rfl
  sound _ := ⟨trivial, Nat.zero_le _⟩
  notNull _ := nofun
  floatless _ := rfl

section Numbers

variable {field : String} {min max : Nat}

instance : Checked (BoundedNum field min max) := ⟨fun n => min ≤ n.get ∧ n.get ≤ max⟩

instance [word : Limits.Word max] : Lawful (BoundedNum field min max) where
  reads {room n} _ _ := by
    have whole : (UInt64.ofNat n.get).toNat = n.get :=
      UInt64.toNat_ofNat_of_lt (Nat.lt_of_le_of_lt n.upper word.lt)
    change (BoundedNum.new (UInt64.ofNat n.get).toNat).toOption = some n
    rw [whole, BoundedNum.new_get]
    rfl
  sound {_ _ n} _ := ⟨⟨n.lower, n.upper⟩, Nat.zero_le _⟩
  notNull _ := nofun
  floatless _ := rfl

instance : Checked Int64 := ⟨fun _ => True⟩

theorem Int64.toValue_read (room : Nat) (n : Int64) :
    Deserialize.read room (.ofValue (Serialize.toValue n)) = some n := by
  have above := n.toInt_lt
  have below := n.le_toInt
  by_cases sign : 0 ≤ n.toInt
  · have small : n.toInt.toNat < 2 ^ 64 := by omega
    have whole : (UInt64.ofNat n.toInt.toNat).toNat = n.toInt.toNat :=
      UInt64.toNat_ofNat_of_lt small
    have written : Serialize.toValue n = .number (.posInt (UInt64.ofNat n.toInt.toNat)) :=
      if_pos sign
    rw [written]
    change (if (UInt64.ofNat n.toInt.toNat).toNat < 2 ^ 63 then
      some (Int64.ofInt (UInt64.ofNat n.toInt.toNat).toNat) else none) = some n
    rw [whole, if_pos (by omega), Int.toNat_of_nonneg sign, Int64.ofInt_toInt]
  · have whole : (Fin.ofNat (2 ^ 63) (-n.toInt - 1).toNat).val = (-n.toInt - 1).toNat :=
      Nat.mod_eq_of_lt (by omega)
    have written : Serialize.toValue n =
        .number (.negInt (Fin.ofNat (2 ^ 63) (-n.toInt - 1).toNat)) := if_neg sign
    have back : -((-n.toInt - 1).toNat : Int) - 1 = n.toInt := by omega
    rw [written]
    change some (Int64.ofInt (-((Fin.ofNat (2 ^ 63) (-n.toInt - 1).toNat).val : Int) - 1)) = some n
    rw [whole, back, Int64.ofInt_toInt]

theorem Int64.toValue_number (n : Int64) :
    ∃ number, Serialize.toValue n = .number number ∧ ∀ text, number ≠ .float text := by
  by_cases sign : 0 ≤ n.toInt
  · exact ⟨_, if_pos sign, nofun⟩
  · exact ⟨_, if_neg sign, nofun⟩

instance : Lawful Int64 where
  reads {room n} _ _ := Int64.toValue_read room n
  sound {_ _ n} _ := by
    obtain ⟨number, written, _⟩ := Int64.toValue_number n
    rw [written]
    exact ⟨trivial, Nat.zero_le _⟩
  notNull n := by
    obtain ⟨number, written, _⟩ := Int64.toValue_number n
    rw [written]
    nofun
  floatless n := by
    obtain ⟨number, written, whole⟩ := Int64.toValue_number n
    rw [written]
    cases number with
    | posInt | negInt => rfl
    | float text => exact absurd rfl (whole text)

end Numbers

section Names

variable {field expected : String} {max : Nat} {ok : UInt8 → Bool}

instance : Checked (BoundedString field expected max ok) :=
  ⟨fun s => s.bytes ≠ [] ∧ s.bytes.length ≤ max ∧ s.bytes.all ok = true⟩

instance [Ascii ok] : Lawful (BoundedString field expected max ok) where
  reads {room s} valid _ := by
    change (BoundedString.new (utf8 (asText s.bytes))).toOption = some s
    rw [utf8_asText_of_all valid.2.2, BoundedString.new_bytes]
    rfl
  sound {_ _ s} _ := ⟨checked_ok_iff.mp s.valid, Nat.zero_le _⟩
  notNull _ := nofun
  floatless _ := rfl

instance : Checked HexString :=
  ⟨fun s => s.bytes.length = Limits.hexChars ∧ s.bytes.all isLowerHex = true⟩

instance : Lawful HexString where
  reads {room s} valid _ := by
    change (HexString.new (utf8 (asText s.bytes))).toOption = some s
    rw [utf8_asText_of_all valid.2, HexString.new_bytes]
    rfl
  sound {_ _ s} _ := ⟨⟨s.width, s.admitted⟩, Nat.zero_le _⟩
  notNull _ := nofun
  floatless _ := rfl

instance : Checked Reason :=
  ⟨fun reason => reason.text ≠ "" ∧ reason.text.utf8ByteSize ≤ Limits.reasonMaxBytes ∧
    ∀ c ∈ reason.text.toList, isControl c = false⟩

instance : Lawful Reason where
  reads {room reason} _ _ := by
    change (Reason.new reason.text).toOption = some reason
    rw [Reason.new_text]
    rfl
  sound {_ _ reason} _ := ⟨Reason.check_ok reason.valid, Nat.zero_le _⟩
  notNull _ := nofun
  floatless _ := rfl

end Names

section Identifiers

open CommandId

theorem CommandId.parseFrom_digits {i : Nat} (digits : i ∉ hyphensAt) (byte : UInt8)
    (rest : Bytes) :
    parseFrom i (Canonical.nibble (byte.toNat / 16) :: Canonical.nibble (byte.toNat % 16) :: rest) =
      (parseFrom (i + 2) rest).map (byte :: ·) := by
  have below := byte.toNat_lt
  have high := hexNibble_nibble (byte.toNat / 16) (by omega)
  have low := hexNibble_nibble (byte.toNat % 16) (Nat.mod_lt _ (by decide))
  have whole : (byte.toNat / 16) <<< 4 ||| byte.toNat % 16 = byte.toNat := by
    have half : byte.toNat % 16 < 2 ^ 4 := Nat.mod_lt _ (by decide)
    rw [← Nat.shiftLeft_add_eq_or_of_lt half, Nat.shiftLeft_eq]
    omega
  rw [parseFrom.eq_def]
  simp only [if_neg digits, high, low, whole, UInt8.ofNat_toNat]

theorem CommandId.parseFrom_hyphen {i : Nat} (here : i ∈ hyphensAt) (rest : Bytes) :
    parseFrom i (45 :: rest) = parseFrom (i + 1) rest := by
  rw [parseFrom.eq_def]
  simp only [if_pos here, if_true]

/-- Where a hyphen comes first, the digits of the byte stand one further on. -/
theorem CommandId.offset_hyphen {k : Nat} (hyphen : k = 4 ∨ k = 6 ∨ k = 8 ∨ k = 10) :
    offset k ∈ hyphensAt ∧ offset k + 1 ∉ hyphensAt ∧ offset k + 1 + 2 = offset (k + 1) ∧
      offset k + 1 < uuidLen := by
  rcases hyphen with rfl | rfl | rfl | rfl <;> decide

theorem CommandId.offset_plain {k : Nat} (hyphen : ¬(k = 4 ∨ k = 6 ∨ k = 8 ∨ k = 10)) :
    offset k ∉ hyphensAt ∧ offset k + 2 = offset (k + 1) := by
  constructor
  · simp only [offset, hyphensAt, List.mem_cons, List.not_mem_nil, or_false]
    omega
  · simp only [offset]
    omega

theorem CommandId.parseFrom_piece (byte : UInt8) (k : Nat) (rest : Bytes) :
    parseFrom (offset k) (piece byte k ++ rest) =
      (parseFrom (offset (k + 1)) rest).map (byte :: ·) := by
  by_cases hyphen : k = 4 ∨ k = 6 ∨ k = 8 ∨ k = 10
  · obtain ⟨here, digits, after, _⟩ := offset_hyphen hyphen
    rw [piece, if_pos hyphen, ← after, ← parseFrom_digits digits]
    exact parseFrom_hyphen here _
  · obtain ⟨here, after⟩ := offset_plain hyphen
    rw [piece, if_neg hyphen, ← after, ← parseFrom_digits here]
    rfl

theorem CommandId.parseFrom_pieces (bytes : Bytes) (k : Nat) :
    parseFrom (offset k) ((bytes.zipIdx k).flatMap fun entry => piece entry.1 entry.2) =
      .ok bytes := by
  induction bytes generalizing k with
  | nil => rfl
  | cons byte rest ih =>
    rw [List.zipIdx_cons, List.flatMap_cons, parseFrom_piece, ih]
    rfl

/-- Parsing undoes printing. -/
theorem CommandId.parse_display (id : CommandId) : parse id.display = .ok id := by
  have width : id.display.length = uuidLen := length_display id
  have read : parseFrom 0 id.display = .ok id.bytes.toList := parseFrom_pieces id.bytes.toList 0
  have whole : id.bytes.toList.toArray.size = 16 := by simp
  unfold parse
  simp only [width, ne_eq, not_true_eq_false, if_false, read]
  rw [dif_pos whole]
  have same : (⟨id.bytes.toList.toArray, whole⟩ : Vector UInt8 16) = id.bytes := by
    apply Vector.toArray_inj.mp
    exact Array.toArray_toList
  rw [same, fromBytes_bytes]

theorem CommandId.display_ascii (id : CommandId) : ∀ b ∈ id.display, b.toNat < 128 := by
  have digit : ∀ v < 16, (Canonical.nibble v).toNat < 128 := by decide
  intro b member
  obtain ⟨entry, _, shown⟩ := List.mem_flatMap.mp member
  have below := entry.1.toNat_lt
  rw [List.mem_append] at shown
  cases shown with
  | inl hyphen =>
    split at hyphen
    · cases List.mem_singleton.mp hyphen
      decide
    · cases hyphen
  | inr digits =>
    simp only [List.mem_cons, List.not_mem_nil, or_false] at digits
    rcases digits with rfl | rfl
    · exact digit _ (by omega)
    · exact digit _ (Nat.mod_lt _ (by decide))

instance : Checked CommandId := ⟨fun id => CommandId.fromBytes id.bytes = .ok id⟩

instance : Lawful CommandId where
  reads {room id} _ _ := by
    change (CommandId.parse (utf8 (asText id.display))).toOption = some id
    rw [utf8_asText id.display_ascii, CommandId.parse_display]
    rfl
  sound {_ _ id} _ := ⟨id.fromBytes_bytes, Nat.zero_le _⟩
  notNull _ := nofun
  floatless _ := rfl

end Identifiers

section Documents

variable {max : Nat} {field : String}

/-- An object without floats within its encoded size, and every object in it a map. -/
instance : Checked (Document max field) :=
  ⟨fun document => document.value.isObject = true ∧
    Canonical.hasFloat document.value = false ∧
    (Canonical.print document.value).length ≤ max ∧ document.value.Mapped⟩

theorem Document.check_ok {v : Value} (passes : Document.check max field v = .ok ()) :
    v.isObject = true ∧ Canonical.hasFloat v = false ∧ (Canonical.print v).length ≤ max := by
  unfold Document.check at passes
  split at passes
  · cases passes
  · rename_i object
    split at passes
    · cases passes
    · rename_i floatless
      split at passes
      · cases passes
      · rename_i short
        exact ⟨by simpa using object, Bool.eq_false_iff.mpr floatless, Nat.le_of_not_lt short⟩

instance : Lawful (Document max field) where
  reads {room document} valid fits := by
    change ((Json.value room (.ofValue document.value)).bind fun v => (Document.new v).toOption) =
      some document
    rw [Json.value_ofValue valid.2.2.2 fits, Option.bind_some, Document.new_value]
    rfl
  sound {room json document} read := by
    obtain ⟨v, readValue, made⟩ := Option.bind_eq_some_iff.mp read
    have same : document.value = v := Document.value_of_new (toOption_eq_some made)
    obtain ⟨mapped, fits⟩ := Json.value_sound readValue
    obtain ⟨object, floatless, short⟩ := Document.check_ok document.valid
    subst same
    exact ⟨⟨object, floatless, short, mapped⟩, fits⟩
  notNull document null := by
    have object := (Document.check_ok document.valid).1
    rw [show document.value = .null from null] at object
    cases object
  floatless document := (Document.check_ok document.valid).2.1

end Documents

end CredSync
