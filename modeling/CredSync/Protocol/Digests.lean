import CredSync.Protocol.Integrity
import Mathlib.Data.Multiset.AddSub

/-! What a scope digest is over: the bytes that stand for one row, and the sum
that rows coming and going leave behind. -/

namespace CredSync

/-- `hex_u128` as it is written, with the fallback it has; `none` is the panic behind it. -/
def hexU128OrPanic (v : BitVec 128) : Option HexString :=
  match HexString.new (hexChars v) with
  | .ok hex => some hex
  | .error _ => (HexString.new (ascii "00")).toOption

/-- Its first attempt always succeeds. -/
theorem hexU128OrPanic_eq (v : BitVec 128) : hexU128OrPanic v = some (hexU128 v) := by
  rw [hexU128OrPanic, new_hexChars]

/-- The literal of the fallback is itself no digest, so taking it would panic. -/
example : (HexString.new (ascii "00")).toOption = none := by decide

/-! ### The bytes of one row -/

theorem length_toBeBytes (width n : Nat) : (toBeBytes width n).length = width := by
  rw [toBeBytes, List.length_map, Positional.length_digits]

theorem eq_of_toBeBytes_eq {width a b : Nat} (fits : a < 256 ^ width) (fits' : b < 256 ^ width)
    (same : toBeBytes width a = toBeBytes width b) : a = b := by
  have digits (n : Nat) : (toBeBytes width n).map UInt8.toNat = Positional.digits 256 width n := by
    rw [toBeBytes, List.map_map]
    refine (List.map_congr_left fun place member => ?_).trans (List.map_id _)
    exact Nat.mod_eq_of_lt (Positional.digits_lt 256 width n (by decide) place member)
  have equal := congrArg (List.map UInt8.toNat) same
  rw [digits, digits] at equal
  exact Positional.eq_of_digits_eq fits fits' equal

/-- A field behind its length. -/
def lengthPrefixed (bytes : Bytes) : Bytes := toBeBytes 8 bytes.length ++ bytes

/-- Whatever follows, a prefixed field can only be read one way. -/
theorem lengthPrefixed_inj {a b rest rest' : Bytes} (short : a.length < 256 ^ 8)
    (short' : b.length < 256 ^ 8)
    (same : lengthPrefixed a ++ rest = lengthPrefixed b ++ rest') : a = b ∧ rest = rest' := by
  rw [lengthPrefixed, lengthPrefixed, List.append_assoc, List.append_assoc] at same
  obtain ⟨lengths, fields⟩ := List.append_inj same (by rw [length_toBeBytes, length_toBeBytes])
  exact List.append_inj fields (eq_of_toBeBytes_eq short short' lengths)

theorem BoundedString.short {field expected : String} {max : Nat} {ok : UInt8 → Bool}
    (s : BoundedString field expected max ok) (small : max < 256 ^ 8) :
    s.bytes.length < 256 ^ 8 :=
  Nat.lt_of_le_of_lt (checked_ok_iff.mp s.valid).2.1 small

theorem rowBytes_eq (entity : EntityName) (entityId : EntityId) (rowVersion : RowVersion) :
    rowBytes entity entityId rowVersion =
      lengthPrefixed entity.bytes ++ (lengthPrefixed entityId.bytes ++ toBeBytes 8 rowVersion.get) := by
  simp only [rowBytes, lengthPrefixed, List.append_assoc]

theorem rowBytes_inj {entity entity' : EntityName} {entityId entityId' : EntityId}
    {rowVersion rowVersion' : RowVersion}
    (same : rowBytes entity entityId rowVersion = rowBytes entity' entityId' rowVersion') :
    entity = entity' ∧ entityId = entityId' ∧ rowVersion = rowVersion' := by
  rw [rowBytes_eq, rowBytes_eq] at same
  obtain ⟨names, rest⟩ :=
    lengthPrefixed_inj (entity.short (by decide)) (entity'.short (by decide)) same
  obtain ⟨ids, versions⟩ :=
    lengthPrefixed_inj (entityId.short (by decide)) (entityId'.short (by decide)) rest
  have fits (version : RowVersion) : version.get < 256 ^ 8 :=
    Nat.lt_of_le_of_lt version.upper (by decide)
  exact ⟨BoundedString.ext names, BoundedString.ext ids,
    BoundedNum.ext (eq_of_toBeBytes_eq (fits _) (fits _) versions)⟩

/-! ### Rows coming and going -/

/-- A row as the digest sees it. -/
abbrev DigestRow := EntityName × EntityId × RowVersion

/-- One call on a digest. -/
inductive DigestCall where
  | add (entity : EntityName) (entityId : EntityId) (rowVersion : RowVersion)
  | remove (entity : EntityName) (entityId : EntityId) (rowVersion : RowVersion)
  | update (entity : EntityName) (entityId : EntityId) (old new : RowVersion)

namespace DigestCall

/-- The rows there are after a call. -/
def leave (rows : Multiset DigestRow) : DigestCall → Multiset DigestRow
  | add entity entityId rowVersion => (entity, entityId, rowVersion) ::ₘ rows
  | remove entity entityId rowVersion => rows.erase (entity, entityId, rowVersion)
  | update entity entityId old new => (entity, entityId, new) ::ₘ rows.erase (entity, entityId, old)

/-- A call takes away only a row that was added, at the version it was added with. -/
def Matches (rows : Multiset DigestRow) : DigestCall → Prop
  | add .. => True
  | remove entity entityId rowVersion => (entity, entityId, rowVersion) ∈ rows
  | update entity entityId old _ => (entity, entityId, old) ∈ rows

instance (rows : Multiset DigestRow) (call : DigestCall) : Decidable (call.Matches rows) :=
  match call with
  | add .. => isTrue trivial
  | remove entity entityId rowVersion =>
    inferInstanceAs (Decidable ((entity, entityId, rowVersion) ∈ rows))
  | update entity entityId old _ => inferInstanceAs (Decidable ((entity, entityId, old) ∈ rows))

/-- The rows that a sequence of calls leaves. -/
def leaveAll (rows : Multiset DigestRow) (calls : List DigestCall) : Multiset DigestRow :=
  calls.foldl leave rows

/-- Every call of the sequence takes away only what the calls before it left. -/
def AllMatch (rows : Multiset DigestRow) : List DigestCall → Prop
  | [] => True
  | call :: rest => call.Matches rows ∧ AllMatch (call.leave rows) rest

instance decidableAllMatch : (rows : Multiset DigestRow) → (calls : List DigestCall) →
    Decidable (AllMatch rows calls)
  | _, [] => isTrue trivial
  | rows, call :: rest =>
    have := decidableAllMatch (call.leave rows) rest
    inferInstanceAs (Decidable (call.Matches rows ∧ AllMatch (call.leave rows) rest))

end DigestCall

section Sums

variable [Hashing]

def DigestCall.apply (digest : ScopeDigest) : DigestCall → ScopeDigest
  | add entity entityId rowVersion => digest.add entity entityId rowVersion
  | remove entity entityId rowVersion => digest.remove entity entityId rowVersion
  | update entity entityId old new => digest.update entity entityId old new

namespace ScopeDigest

/-- The digest after a sequence of calls, from the empty one. -/
def accumulate (calls : List DigestCall) : ScopeDigest := calls.foldl DigestCall.apply empty

/-- `from_rows` as it iterates. -/
def fromRowList (rows : List DigestRow) : ScopeDigest :=
  rows.foldl (fun digest row => digest.add row.1 row.2.1 row.2.2) empty

theorem fromRows_coe (rows : List DigestRow) : fromRows rows = fromRowList rows := rfl

/-- Removing a row gives the digest of the rows without it. -/
theorem fromRows_erase {row : DigestRow} {rows : Multiset DigestRow} (held : row ∈ rows) :
    fromRows (rows.erase row) = (fromRows rows).remove row.1 row.2.1 row.2.2 := by
  have whole := fromRows_cons row (rows.erase row)
  rw [Multiset.cons_erase held] at whole
  rw [whole]
  exact congrArg ScopeDigest.mk (add_sub_cancel_right _ _).symm

/-- One matching call keeps the digest the sum over the rows there are. -/
theorem fromRows_leave {rows : Multiset DigestRow} {call : DigestCall} (held : call.Matches rows) :
    call.apply (fromRows rows) = fromRows (call.leave rows) := by
  cases call with
  | add entity entityId rowVersion =>
    rw [DigestCall.leave, fromRows_cons]
    rfl
  | remove entity entityId rowVersion =>
    rw [DigestCall.leave, fromRows_erase held]
    rfl
  | update entity entityId old new =>
    rw [DigestCall.leave, fromRows_cons, fromRows_erase held]
    rfl

/-- So a sequence of matching calls ends at the sum over the rows it leaves. -/
theorem fromRows_leaveAll {rows : Multiset DigestRow} {calls : List DigestCall}
    (held : DigestCall.AllMatch rows calls) :
    calls.foldl DigestCall.apply (fromRows rows) = fromRows (DigestCall.leaveAll rows calls) := by
  induction calls generalizing rows with
  | nil => rfl
  | cons call rest ih =>
    rw [List.foldl_cons, fromRows_leave held.1]
    exact ih held.2

end ScopeDigest

/-- The bytes hashed for a row name the row. So one row passes for another in a digest, or
takes the other out of it, exactly when the hash of their two byte strings is the same. -/
theorem row_bytes_identify :
    (Function.Injective fun row : DigestRow => rowBytes row.1 row.2.1 row.2.2) ∧
    ∀ (digest : ScopeDigest) (row row' : DigestRow),
      (digest.add row.1 row.2.1 row.2.2 = digest.add row'.1 row'.2.1 row'.2.2 ↔
        Hashing.xxh3 (rowBytes row.1 row.2.1 row.2.2) =
          Hashing.xxh3 (rowBytes row'.1 row'.2.1 row'.2.2)) ∧
      ((digest.add row.1 row.2.1 row.2.2).remove row'.1 row'.2.1 row'.2.2 = digest ↔
        Hashing.xxh3 (rowBytes row.1 row.2.1 row.2.2) =
          Hashing.xxh3 (rowBytes row'.1 row'.2.1 row'.2.2)) := by
  constructor
  · intro row row' same
    obtain ⟨entities, ids, versions⟩ := rowBytes_inj same
    exact Prod.ext entities (Prod.ext ids versions)
  · intro digest row row'
    constructor
    · constructor
      · intro same
        exact add_left_cancel (congrArg ScopeDigest.raw same)
      · intro same
        exact congrArg (fun hash => ScopeDigest.mk (digest.raw + hash)) same
    · constructor
      · intro cancelled
        have sum := eq_add_of_sub_eq (congrArg ScopeDigest.raw cancelled)
        exact add_left_cancel sum
      · intro same
        apply congrArg ScopeDigest.mk
        exact sub_eq_of_eq_add (congrArg (digest.raw + ·) same)

end Sums

end CredSync
