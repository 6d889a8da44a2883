import CredSync.Library.FiniteMap
import CredSync.Library.Positional
import CredSync.Protocol.Wire
import Mathlib.Data.BitVec
import Mathlib.Tactic.Linarith

/-! Checksums and the scope digest. The two hash functions come from other
crates and stay parameters; everything built over them is the protocol's own. -/

namespace CredSync

/-- `XxHash3_128::oneshot` and `blake3::hash`. -/
class Hashing where
  xxh3 : Bytes → BitVec 128
  blake3 : Bytes → Vector UInt8 32

/-- `to_be_bytes` of an unsigned integer of `width` bytes. -/
def toBeBytes (width n : Nat) : Bytes := (Positional.digits 256 width n).map UInt8.ofNat

/-- The characters `hex_u128` pushes: two for each byte, whatever the byte. -/
@[irreducible] def hexChars (v : BitVec 128) : Bytes :=
  (Positional.digits 256 16 v.toNat).flatMap fun byte =>
    [Canonical.nibble (byte / 16), Canonical.nibble (byte % 16)]

theorem hexChars_eq (v : BitVec 128) :
    hexChars v = (Positional.digits 16 32 v.toNat).map Canonical.nibble := by
  rw [← Positional.digits_split 16 16, List.map_flatMap, hexChars]
  rfl

theorem hexNibble_nibble : ∀ d < 16, hexNibble (Canonical.nibble d) = some d := by
  decide

theorem isLowerHex_hexChars (v : BitVec 128) : (hexChars v).all isLowerHex = true := by
  rw [hexChars_eq, List.all_map, List.all_eq_true]
  intro d member
  have digit : d < 16 := Positional.digits_lt 16 32 v.toNat (by decide) d member
  simp only [Function.comp_apply, isLowerHex, hexNibble_nibble d digit, Option.isSome_some]

theorem length_hexChars (v : BitVec 128) : (hexChars v).length = Limits.hexChars := by
  rw [hexChars_eq, List.length_map, Positional.length_digits]
  rfl

/-- `hex_u128` always satisfies `HexString`. -/
def hexU128 (v : BitVec 128) : HexString := ⟨hexChars v, isLowerHex_hexChars v, length_hexChars v⟩

@[simp] theorem hexU128_bytes (v : BitVec 128) : (hexU128 v).bytes = hexChars v := rfl

/-- The fallback of `hex_u128` is never taken. -/
theorem new_hexChars (v : BitVec 128) : HexString.new (hexChars v) = .ok (hexU128 v) :=
  HexString.new_bytes (hexU128 v)

/-- One step of `u128::from_str_radix(_, 16)`: `checked_mul`, then `checked_add`. -/
def radixStep (total : Option Nat) (b : UInt8) : Option Nat :=
  match total, radixDigit b with
  | some n, some d => if n * 16 + d < 2 ^ 128 then some (n * 16 + d) else none
  | _, _ => none
where
  /-- `char::to_digit(16)` takes both cases. -/
  radixDigit (b : UInt8) : Option Nat :=
    if isAsciiUppercase b then hexNibble (b + 32) else hexNibble b

/-- `u128::from_str_radix(s, 16)`: an optional plus sign, then at least one digit. -/
def fromStrRadix (s : Bytes) : Option (BitVec 128) :=
  let digits := if s.head? = some 43 then s.tail else s
  if digits.isEmpty then none
  else (digits.foldl radixStep (some 0)).map (BitVec.ofNat 128)

private theorem radixDigit_nibble :
    ∀ d < 16, radixStep.radixDigit (Canonical.nibble d) = some d := by
  decide

private theorem foldl_radixStep (places : List Nat) (digits : ∀ d ∈ places, d < 16) (total : Nat)
    (small : total * 16 ^ places.length + 16 ^ places.length ≤ 2 ^ 128) :
    (places.map Canonical.nibble).foldl radixStep (some total) =
      some (places.foldl (fun total place => total * 16 + place) total) := by
  induction places generalizing total with
  | nil => rfl
  | cons d rest ih =>
    have digit := digits d List.mem_cons_self
    have parsed := radixDigit_nibble d digit
    have scaled : (total * 16 + d) * 16 ^ rest.length + 16 ^ rest.length ≤ 2 ^ 128 := by
      have split : (total * 16 + d) * 16 ^ rest.length + 16 ^ rest.length =
          (total * 16 + d + 1) * 16 ^ rest.length := by ring
      have whole : total * 16 ^ (rest.length + 1) + 16 ^ (rest.length + 1) =
          (total * 16 + 16) * 16 ^ rest.length := by ring
      rw [List.length_cons, whole] at small
      rw [split]
      exact (Nat.mul_le_mul_right _ (by omega)).trans small
    have fits : total * 16 + d < 2 ^ 128 := by
      have positive : 1 ≤ 16 ^ rest.length := Nat.one_le_pow _ _ (by decide)
      nlinarith
    rw [List.map_cons, List.foldl_cons, List.foldl_cons]
    have stepped : radixStep (some total) (Canonical.nibble d) = some (total * 16 + d) := by
      simp only [radixStep, parsed, fits, if_true]
    rw [stepped]
    exact ih (fun place member => digits place (List.mem_cons_of_mem _ member)) _ scaled

/-- Parsing the characters gives back the number they were printed from. -/
theorem fromStrRadix_hexChars (v : BitVec 128) : fromStrRadix (hexChars v) = some v := by
  have digits : ∀ d ∈ Positional.digits 16 32 v.toNat, d < 16 :=
    Positional.digits_lt 16 32 v.toNat (by decide)
  have small : 0 * 16 ^ (Positional.digits 16 32 v.toNat).length +
      16 ^ (Positional.digits 16 32 v.toNat).length ≤ 2 ^ 128 := by
    rw [Positional.length_digits]
    decide
  have parsed := foldl_radixStep _ digits 0 small
  rw [← hexChars_eq, ← Positional.value, Positional.value_digits] at parsed
  have unsigned : (hexChars v).head? ≠ some 43 := by
    intro plus
    have admitted := List.all_eq_true.mp (isLowerHex_hexChars v) 43 (List.mem_of_mem_head? plus)
    exact absurd admitted (by decide)
  have nonempty : (hexChars v).isEmpty = false := by
    rw [List.isEmpty_eq_false_iff, ← List.length_pos_iff, length_hexChars]
    decide
  have whole : BitVec.ofNat 128 (v.toNat % 16 ^ 32) = v := by
    apply BitVec.eq_of_toNat_eq
    rw [BitVec.toNat_ofNat]
    omega
  simp only [fromStrRadix, if_neg unsigned, nonempty, parsed, Option.map_some, whole,
    Bool.false_eq_true, if_false]

theorem hexU128_injective : Function.Injective hexU128 := by
  intro a b same
  have bytes := congrArg HexString.bytes same
  rw [hexU128_bytes, hexU128_bytes] at bytes
  have parsed := fromStrRadix_hexChars a
  rw [bytes, fromStrRadix_hexChars b] at parsed
  exact (Option.some.inj parsed).symm

section Digest

variable [Hashing]

/-- `payload_checksum`: BLAKE3 over the canonical encoding, truncated to its first half. -/
def payloadChecksum [Serialize α] (value : α) : HexString :=
  hexU128 (BitVec.ofNat 128 (Positional.value 256
    (((Hashing.blake3 (Canonical.toVec value)).toList.take 16).map UInt8.toNat)))

/-- `checksum`: xxh3 over the canonical encoding. -/
def checksum [Serialize α] (value : α) : HexString :=
  hexU128 (Hashing.xxh3 (Canonical.toVec value))

/-- What `row_hash` hashes: both names behind their lengths, then the version. -/
def rowBytes (entity : EntityName) (entityId : EntityId) (rowVersion : RowVersion) : Bytes :=
  toBeBytes 8 entity.bytes.length ++ entity.bytes ++
    toBeBytes 8 entityId.bytes.length ++ entityId.bytes ++ toBeBytes 8 rowVersion.get

def rowHash (entity : EntityName) (entityId : EntityId) (rowVersion : RowVersion) : BitVec 128 :=
  Hashing.xxh3 (rowBytes entity entityId rowVersion)

/-- A sum of row hashes in wrapping 128-bit arithmetic. -/
structure ScopeDigest where
  raw : BitVec 128
  deriving DecidableEq

namespace ScopeDigest

def empty : ScopeDigest := ⟨0⟩

def add (digest : ScopeDigest) (entity : EntityName) (entityId : EntityId)
    (rowVersion : RowVersion) : ScopeDigest :=
  ⟨digest.raw + rowHash entity entityId rowVersion⟩

def remove (digest : ScopeDigest) (entity : EntityName) (entityId : EntityId)
    (rowVersion : RowVersion) : ScopeDigest :=
  ⟨digest.raw - rowHash entity entityId rowVersion⟩

def update (digest : ScopeDigest) (entity : EntityName) (entityId : EntityId)
    (old new : RowVersion) : ScopeDigest :=
  (digest.remove entity entityId old).add entity entityId new

instance : RightCommutative fun (digest : ScopeDigest) (row : EntityName × EntityId × RowVersion) =>
    digest.add row.1 row.2.1 row.2.2 :=
  ⟨fun digest _ _ => congrArg ScopeDigest.mk (add_right_comm digest.raw _ _)⟩

/-- The fold of `add` over the rows; their order cannot matter. -/
def fromRows (rows : Multiset (EntityName × EntityId × RowVersion)) : ScopeDigest :=
  rows.foldl (fun digest row => digest.add row.1 row.2.1 row.2.2) empty

theorem fromRows_cons (row : EntityName × EntityId × RowVersion)
    (rows : Multiset (EntityName × EntityId × RowVersion)) :
    fromRows (row ::ₘ rows) = (fromRows rows).add row.1 row.2.1 row.2.2 := by
  rw [fromRows, ← Multiset.singleton_add, add_comm, Multiset.foldl_add]
  rfl

theorem fromRows_raw (rows : Multiset (EntityName × EntityId × RowVersion)) :
    (fromRows rows).raw = (rows.map fun row => rowHash row.1 row.2.1 row.2.2).sum := by
  induction rows using Multiset.induction_on with
  | empty => rfl
  | cons row rest ih => rw [fromRows_cons, add, ih, Multiset.map_cons, Multiset.sum_cons, add_comm]

def toHex (digest : ScopeDigest) : HexString := hexU128 digest.raw

omit [Hashing] in
theorem toHex_injective : Function.Injective toHex := by
  intro a b same
  have raw : a.raw = b.raw := hexU128_injective same
  cases a
  cases b
  cases raw
  rfl

end ScopeDigest

end Digest

/-! ### Values for concrete runs -/

/-- The two hash functions on the inputs of a table. -/
@[reducible] def Hashing.ofTable (xxh3 : List (Bytes × BitVec 128))
    (blake3 : List (Bytes × Vector UInt8 32)) : Hashing where
  xxh3 bytes := (xxh3.lookup bytes).getD 0
  blake3 bytes := (blake3.lookup bytes).getD (Vector.replicate 32 0)

namespace Sample

def scope : ScopeId := ⟨ascii "s", by decide⟩
def note : EntityName := ⟨ascii "note", by decide⟩
def first : EntityId := ⟨ascii "a", by decide⟩
def second : EntityId := ⟨ascii "b", by decide⟩
def empty : Snapshot := ⟨.object [], by decide⟩
def body : Payload := ⟨.object [], by decide⟩
/-- The hash of that body. -/
def bodyHash : Vector UInt8 32 :=
  #v[0x6e, 0x46, 0xdd, 0x10, 0xde, 0xfc, 0x9b, 0x56, 0xc2, 0x9a, 0x6e, 0xc5, 0x6b, 0x50, 0x8c, 0x21,
    0xf5, 0x4c, 0x08, 0x19, 0x21, 0x94, 0xe4, 0xdf, 0x25, 0xbf, 0x36, 0xf0, 0xc9, 0xc3, 0xc2, 0x79]
def commandBytes (last : UInt8) : Vector UInt8 16 :=
  #v[1, 2, 3, 4, 5, 6, 0x70, 8, 9, 10, 11, 12, 13, 14, 15, last]
def firstCommand : CommandId := (CommandId.fromBytes (commandBytes 16)).toOption.get (by decide)
def secondCommand : CommandId := (CommandId.fromBytes (commandBytes 17)).toOption.get (by decide)
def schema : SchemaVersion := 1

/-- An upsert of an empty document. -/
def upsert (seq : Seq) (entityId : EntityId) (rowVersion : RowVersion) : Change where
  seq := seq
  entity := note
  entityId := entityId
  op := .upsert
  snapshot := some empty
  rowVersion := rowVersion
  schemaVersion := schema

def noteA : Change := upsert 1 first 1
def noteB : Change := upsert 2 second 1

/-- The hashes of the batches of these two changes, and of their rows. -/
abbrev noteHashes : Hashing := .ofTable
  [(Canonical.toVec ([] : List Change), 0x39347ff402b6c53d831154110e30ac6a),
    (Canonical.toVec [noteA], 0x8105e432325338857bfee42c5b6d7832),
    (Canonical.toVec [noteB], 0x577da4aff45223f990dfc41d8f8e2654),
    (Canonical.toVec [noteA, noteB], 0xea8ad53d371a7f65277e5d53c1e2f609),
    (rowBytes note first noteA.rowVersion, 0x56431b2e5d10461c8b074367b4d45f4b),
    (rowBytes note first 2, 0x9659be34d586deea639fffc57c9a9245),
    (rowBytes note second noteB.rowVersion, 0xf0e2ba6f6744f3823ab654c4a0959199)] []

end Sample

end CredSync
