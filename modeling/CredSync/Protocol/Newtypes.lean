import Mathlib.Algebra.Group.Nat.Defs
import Mathlib.Data.List.Basic

/-! The protocol crate's validated newtypes. A value carries the proof of its
own bounds, so every function downstream receives it already checked. -/

namespace CredSync

/-- A byte string as Rust holds it. -/
abbrev Bytes := List UInt8

namespace Limits

def protocolVersionMin : Nat := 1
def schemaVersionMin : Nat := 1
def scopeMaxBytes : Nat := 128
def entityMaxBytes : Nat := 64
def entityIdMaxBytes : Nat := 64
def commandNameMaxBytes : Nat := 64
def reasonMaxBytes : Nat := 256
def hexChars : Nat := 32
def snapshotMaxBytes : Nat := 256 * 1024
def payloadMaxBytes : Nat := 64 * 1024
def limitBytesMin : Nat := 1
def limitBytesMax : Nat := 1024 * 1024
def commandsMaxCount : Nat := 256
def commandsMaxTotalBytes : Nat := 1024 * 1024
def scopesMaxCount : Nat := 64
def seqMax : Nat := 2 ^ 63 - 1
def seqMin : Nat := 1
def cursorStart : Nat := 0
def u16Max : Nat := 2 ^ 16 - 1
def u32Max : Nat := 2 ^ 32 - 1

end Limits

inductive ProtocolError where
  | tooLong (field : String) (limit actual : Nat)
  | badCharset (field expected : String)
  | empty (field : String)
  | tooShort (field : String) (expected actual : Nat)
  | outOfRange (field : String) (min max actual : Nat)
  | malformedUuid
  | notUuidV7 (found : Nat)
  | tooManyItems (field : String) (limit actual : Nat)
  | notAnObject (field : String)
  | floatNotAllowed (field : String)
  | inconsistent (detail : String)
  deriving DecidableEq

instance : ToString ProtocolError where
  toString
    | .tooLong field limit actual => s!"{field}: {actual} bytes exceeds the {limit}-byte limit"
    | .badCharset field expected => s!"{field}: expected {expected}"
    | .empty field => s!"{field}: must not be empty"
    | .tooShort field expected actual =>
        s!"{field}: {actual} characters, expected exactly {expected}"
    | .outOfRange field min max actual => s!"{field}: {actual} is outside {min}..={max}"
    | .malformedUuid => "command id: not a hyphenated lowercase UUID"
    | .notUuidV7 found => s!"command id: expected UUID version 7, found version {found}"
    | .tooManyItems field limit actual => s!"{field}: {actual} items exceeds the limit of {limit}"
    | .notAnObject field => s!"{field}: must be a JSON object"
    | .floatNotAllowed field =>
        s!"{field}: floating-point numbers break canonical encoding and therefore scope " ++
          "digests; use a scaled integer or a decimal string"
    | .inconsistent detail => s!"inconsistent: {detail}"

/-- `bounded_num!`: an integer with an inclusive range, named after its wire field. -/
structure BoundedNum (field : String) (min max : Nat) where
  get : Nat
  lower : min ≤ get
  upper : get ≤ max
  deriving DecidableEq

variable {field expected : String} {min max : Nat} {ok : UInt8 → Bool}

def BoundedNum.new (v : Nat) : Except ProtocolError (BoundedNum field min max) :=
  if bounds : min ≤ v ∧ v ≤ max then .ok ⟨v, bounds.1, bounds.2⟩
  else .error (.outOfRange field min max v)

instance : ToString (BoundedNum field min max) := ⟨fun n => toString n.get⟩

@[ext] theorem BoundedNum.ext {a b : BoundedNum field min max} (same : a.get = b.get) : a = b := by
  cases a
  cases b
  cases same
  rfl

@[simp] theorem BoundedNum.new_get (n : BoundedNum field min max) :
    (BoundedNum.new n.get : Except ProtocolError (BoundedNum field min max)) = .ok n :=
  dif_pos ⟨n.lower, n.upper⟩

abbrev ProtocolVersion := BoundedNum "protocol" Limits.protocolVersionMin Limits.u16Max
abbrev SchemaVersion := BoundedNum "schema_version" Limits.schemaVersionMin Limits.u16Max
abbrev Seq := BoundedNum "seq" Limits.seqMin Limits.seqMax
abbrev RowVersion := BoundedNum "row_version" Limits.seqMin Limits.seqMax
abbrev LimitBytes := BoundedNum "limit_bytes" Limits.limitBytesMin Limits.limitBytesMax
abbrev Cursor := BoundedNum "cursor" Limits.cursorStart Limits.seqMax

/-- Bounds that some number lies within. -/
class Limits.Ordered (min max : Nat) : Prop where
  le : min ≤ max

instance : Limits.Ordered Limits.protocolVersionMin Limits.u16Max := ⟨by decide⟩
instance : Limits.Ordered Limits.schemaVersionMin Limits.u16Max := ⟨by decide⟩
instance : Limits.Ordered Limits.seqMin Limits.seqMax := ⟨by decide⟩
instance : Limits.Ordered Limits.limitBytesMin Limits.limitBytesMax := ⟨by decide⟩
instance : Limits.Ordered Limits.cursorStart Limits.seqMax := ⟨by decide⟩

/-- A numeral is its number, or the nearest one within the bounds. -/
instance [ordered : Limits.Ordered min max] (n : Nat) : OfNat (BoundedNum field min max) n where
  ofNat :=
    { get := Nat.max min (Nat.min n max)
      lower := Nat.le_max_left ..
      upper := Nat.max_le.mpr ⟨ordered.le, Nat.min_le_right ..⟩ }

/-- A client that has applied nothing. -/
def Cursor.start : Cursor := ⟨Limits.cursorStart, Nat.le_refl _, Nat.zero_le _⟩

/-- `checked`: nonempty, at most `max` bytes, every byte admitted. -/
def checked (field expected : String) (max : Nat) (ok : UInt8 → Bool) (s : Bytes) :
    Except ProtocolError Unit :=
  if s.isEmpty then .error (.empty field)
  else if max < s.length then .error (.tooLong field max s.length)
  else if s.all ok then .ok ()
  else .error (.badCharset field expected)

theorem checked_ok_iff {s : Bytes} :
    checked field expected max ok s = .ok () ↔ s ≠ [] ∧ s.length ≤ max ∧ s.all ok = true := by
  unfold checked
  by_cases empty : s = []
  · simp [empty]
  · by_cases long : max < s.length
    · have exceeds : ¬ s.length ≤ max := Nat.not_le.mpr long
      simp [empty, long, exceeds]
    · have within : s.length ≤ max := Nat.le_of_not_lt long
      by_cases admitted : s.all ok = true
      · simp only [List.isEmpty_iff, empty, if_false, long, admitted, if_true, within, ne_eq,
          not_false_eq_true, and_self]
      · simp only [List.isEmpty_iff, empty, if_false, long, admitted, Bool.false_eq_true]
        simp

/-- `bounded_string!`: ASCII text with a length limit and a charset. -/
structure BoundedString (field expected : String) (max : Nat) (ok : UInt8 → Bool) where
  bytes : Bytes
  valid : checked field expected max ok bytes = .ok ()
  deriving DecidableEq

def BoundedString.new (s : Bytes) : Except ProtocolError (BoundedString field expected max ok) :=
  match valid : checked field expected max ok s with
  | .ok () => .ok ⟨s, valid⟩
  | .error e => .error e

@[ext] theorem BoundedString.ext {a b : BoundedString field expected max ok}
    (same : a.bytes = b.bytes) : a = b := by
  cases a
  cases b
  cases same
  rfl

@[simp] theorem BoundedString.new_bytes (s : BoundedString field expected max ok) :
    (BoundedString.new s.bytes : Except ProtocolError (BoundedString field expected max ok)) =
      .ok s := by
  unfold BoundedString.new
  split
  · rfl
  · rename_i e refused
    rw [s.valid] at refused
    cases refused

/-- ASCII bytes as text, for messages. -/
def asText (s : Bytes) : String := String.ofList (s.map fun b => Char.ofNat b.toNat)

/-- ASCII text as bytes. -/
def ascii (s : String) : Bytes := s.toList.map fun c => UInt8.ofNat c.toNat

instance : ToString (BoundedString field expected max ok) := ⟨fun s => asText s.bytes⟩

def isAsciiDigit (b : UInt8) : Bool := 48 ≤ b && b ≤ 57
def isAsciiLowercase (b : UInt8) : Bool := 97 ≤ b && b ≤ 122
def isAsciiUppercase (b : UInt8) : Bool := 65 ≤ b && b ≤ 90
def isAsciiAlphanumeric (b : UInt8) : Bool :=
  isAsciiDigit b || isAsciiLowercase b || isAsciiUppercase b

/-- Alphanumeric, `:`, `_` or `-`. -/
def isScopeByte (b : UInt8) : Bool := isAsciiAlphanumeric b || b == 58 || b == 95 || b == 45
def isLowerSnake (b : UInt8) : Bool := isAsciiLowercase b || isAsciiDigit b || b == 95
/-- Printable ASCII without the space. -/
def isEntityIdByte (b : UInt8) : Bool := 33 ≤ b && b ≤ 126

abbrev ScopeId := BoundedString "scope" "ASCII alphanumeric, ':', '_' or '-'"
  Limits.scopeMaxBytes isScopeByte
abbrev EntityName := BoundedString "entity" "lowercase ASCII, digits or '_'"
  Limits.entityMaxBytes isLowerSnake
abbrev EntityId := BoundedString "entity_id" "printable ASCII without spaces"
  Limits.entityIdMaxBytes isEntityIdByte
abbrev CommandName := BoundedString "name" "lowercase ASCII, digits or '_'"
  Limits.commandNameMaxBytes isLowerSnake

/-- `char::is_control`: the Unicode control characters, C0 and C1. -/
def isControl (c : Char) : Bool := c.toNat < 32 || (127 ≤ c.toNat && c.toNat < 160)

def Reason.check (s : String) : Except ProtocolError Unit :=
  if s.isEmpty then .error (.empty "reason")
  else if Limits.reasonMaxBytes < s.utf8ByteSize then
    .error (.tooLong "reason" Limits.reasonMaxBytes s.utf8ByteSize)
  else if s.toList.any isControl then
    .error (.badCharset "reason" "text without control characters")
  else .ok ()

/-- Text shown to a person: nonempty, bounded, without control characters. -/
structure Reason where
  text : String
  valid : Reason.check text = .ok ()
  deriving DecidableEq

def Reason.new (s : String) : Except ProtocolError Reason :=
  match valid : Reason.check s with
  | .ok () => .ok ⟨s, valid⟩
  | .error e => .error e

theorem Reason.check_ok {s : String} (passes : Reason.check s = .ok ()) :
    s ≠ "" ∧ s.utf8ByteSize ≤ Limits.reasonMaxBytes ∧ ∀ c ∈ s.toList, isControl c = false := by
  unfold Reason.check at passes
  split at passes
  · cases passes
  · rename_i nonempty
    split at passes
    · cases passes
    · rename_i short
      split at passes
      · cases passes
      · rename_i clean
        refine ⟨fun empty => nonempty (empty ▸ rfl), Nat.le_of_not_lt short, ?_⟩
        intro c member
        apply Bool.eq_false_iff.mpr
        exact fun control => clean (List.any_eq_true.mpr ⟨c, member, control⟩)

theorem Reason.new_text (reason : Reason) : Reason.new reason.text = .ok reason := by
  unfold Reason.new
  split
  · rfl
  · rename_i e refused
    rw [reason.valid] at refused
    cases refused

/-- Lowercase hexadecimal only. -/
def hexNibble (b : UInt8) : Option Nat :=
  if isAsciiDigit b then some (b.toNat - 48)
  else if 97 ≤ b && b ≤ 102 then some (b.toNat - 97 + 10)
  else none

def isLowerHex (b : UInt8) : Bool := (hexNibble b).isSome

/-- Exactly 32 lowercase hexadecimal characters. -/
structure HexString where
  bytes : Bytes
  admitted : bytes.all isLowerHex = true
  width : bytes.length = Limits.hexChars
  deriving DecidableEq

@[ext] theorem HexString.ext {a b : HexString} (same : a.bytes = b.bytes) : a = b := by
  cases a
  cases b
  cases same
  rfl

/-- `checked` refuses anything longer; the last test refuses anything shorter. -/
def HexString.newNamed (field : String) (s : Bytes) : Except ProtocolError HexString :=
  match valid : checked field "lowercase hex" Limits.hexChars isLowerHex s with
  | .error e => .error e
  | .ok () =>
    if width : s.length = Limits.hexChars then .ok ⟨s, (checked_ok_iff.mp valid).2.2, width⟩
    else .error (.tooShort field Limits.hexChars s.length)

def HexString.new (s : Bytes) : Except ProtocolError HexString := HexString.newNamed "digest" s

theorem HexString.new_bytes (s : HexString) : HexString.new s.bytes = .ok s := by
  have nonempty : s.bytes ≠ [] := by
    intro empty
    have width := s.width
    rw [empty] at width
    exact absurd width (by decide)
  have passes : checked "digest" "lowercase hex" Limits.hexChars isLowerHex s.bytes = .ok () :=
    checked_ok_iff.mpr ⟨nonempty, Nat.le_of_eq s.width, s.admitted⟩
  unfold HexString.new HexString.newNamed
  split
  · rename_i e refused
    rw [passes] at refused
    cases refused
  · exact dif_pos s.width

/-- A UUIDv7: sixteen bytes whose version nibble is 7. -/
structure CommandId where
  bytes : Vector UInt8 16
  version : bytes[6] >>> 4 = 7
  deriving DecidableEq

def CommandId.fromBytes (b : Vector UInt8 16) : Except ProtocolError CommandId :=
  if version : b[6] >>> 4 = 7 then .ok ⟨b, version⟩
  else .error (.notUuidV7 (b[6] >>> 4).toNat)

theorem CommandId.fromBytes_bytes (id : CommandId) : fromBytes id.bytes = .ok id :=
  dif_pos id.version

/-- Where hyphens stand in a written identifier. -/
def CommandId.hyphensAt : List Nat := [8, 13, 18, 23]
def CommandId.uuidLen : Nat := 36

/-- The loop of `parse` from position `i` on: a hyphen where one belongs, and everywhere
else two hexadecimal digits that become a byte. -/
def CommandId.parseFrom (i : Nat) : Bytes → Except ProtocolError Bytes
  | [] => .ok []
  | byte :: rest =>
    if i ∈ hyphensAt then
      if byte = 45 then parseFrom (i + 1) rest else .error .malformedUuid
    else
      match hexNibble byte, rest with
      | some hi, next :: rest =>
        match hexNibble next with
        | some lo => (parseFrom (i + 2) rest).map (UInt8.ofNat (hi <<< 4 ||| lo) :: ·)
        | none => .error .malformedUuid
      | _, _ => .error .malformedUuid

/-- A hyphenated lowercase UUIDv7 and nothing else. -/
def CommandId.parse (s : Bytes) : Except ProtocolError CommandId :=
  if s.length ≠ uuidLen then .error .malformedUuid
  else
    match parseFrom 0 s with
    | .error e => .error e
    | .ok out =>
      if width : out.toArray.size = 16 then fromBytes ⟨out.toArray, width⟩
      else .error .malformedUuid

end CredSync
