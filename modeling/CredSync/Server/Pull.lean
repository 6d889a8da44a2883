import CredSync.Library.KeyedLog
import CredSync.Protocol.Integrity

/-! Pull pagination: rows of the change log made into wire changes, and one
batch filled from them up to a compressed byte budget. -/

namespace CredSync

inductive ServerError where
  | corrupt (detail : String)
  | protocol (e : ProtocolError)
  | database (detail : String)
  deriving DecidableEq

instance : ToString ServerError where
  toString
    | .corrupt detail => s!"corrupt change log: {detail}"
    | .protocol e => s!"invalid value in the change log: {e}"
    | .database detail => s!"database failure: {detail}"

/-- One row of `sync_changes` as read from the database: untrusted, its integers
signed as the columns are. -/
structure ChangeRow where
  seq : Int
  entity : Bytes
  entityId : Bytes
  op : String
  snapshot : Option Value
  rowVersion : Int
  schemaVersion : Int

/-- `ServerError::from(ProtocolError)`, as `?` applies it. -/
def liftProtocol : Except ProtocolError α → Except ServerError α
  | .ok value => .ok value
  | .error e => .error (.protocol e)

/-- `u64::try_from` on a column, or the error that names it. -/
def unsigned (column : String) (value : Int) : Except ServerError Nat :=
  if 0 ≤ value then .ok value.toNat
  else .error (.corrupt s!"sync_changes.{column} {value} is negative")

namespace ChangeRow

def parsedOp (row : ChangeRow) : Except ServerError Op :=
  if row.op = "upsert" then .ok .upsert
  else if row.op = "delete" then .ok .delete
  else .error (.corrupt s!"sync_changes.op is '{row.op}', which is not a valid op")

def parsedSnapshot (row : ChangeRow) : Op → Except ServerError (Option Snapshot)
  | .upsert =>
    match row.snapshot with
    | some v => (liftProtocol (Document.new v)).map some
    | none => .error (.corrupt s!"sync_changes.seq {row.seq} is an upsert with no snapshot")
  | .delete =>
    match row.snapshot with
    | none => .ok none
    | some _ => .error (.corrupt s!"sync_changes.seq {row.seq} is a delete carrying a snapshot")

/-- `u16::try_from` on the schema version. -/
def parsedSchemaVersion (row : ChangeRow) : Except ServerError Nat :=
  if 0 ≤ row.schemaVersion ∧ row.schemaVersion ≤ Limits.u16Max then .ok row.schemaVersion.toNat
  else .error (.corrupt
    s!"sync_changes.schema_version {row.schemaVersion} does not fit the wire's range")

/-- Converts a database row into a validated wire value. -/
def intoChange (row : ChangeRow) : Except ServerError Change := do
  let op ← row.parsedOp
  let snapshot ← row.parsedSnapshot op
  let seq ← unsigned "seq" row.seq
  let rowVersion ← unsigned "row_version" row.rowVersion
  let schemaVersion ← row.parsedSchemaVersion
  return {
    seq := ← liftProtocol (BoundedNum.new seq)
    entity := ← liftProtocol (BoundedString.new row.entity)
    entityId := ← liftProtocol (BoundedString.new row.entityId)
    op := op
    snapshot := snapshot
    rowVersion := ← liftProtocol (BoundedNum.new rowVersion)
    schemaVersion := ← liftProtocol (BoundedNum.new schemaVersion) }

end ChangeRow

/-- What filling a batch has built: the changes chosen and their canonical bytes. -/
structure BatchFill where
  chosen : List Change := []
  buf : Bytes := [91, 93]

/-- Splices one encoded change in before the closing bracket. -/
def BatchFill.splice (fill : BatchFill) (one : Bytes) : Bytes :=
  fill.buf.dropLast ++ (if fill.chosen.isEmpty then [] else [44]) ++ one ++ [93]

/-- The loop of `fill_batch`. One change always goes, even alone over budget. -/
def fillChanges (compressedLen : Bytes → Nat) (budgetBytes : Nat) :
    List Change → BatchFill → BatchFill
  | [], fill => fill
  | change :: rest, fill =>
    let buf := fill.splice (Canonical.toVec change)
    if budgetBytes < compressedLen buf ∧ fill.chosen ≠ [] then
      { fill with buf := buf.take (fill.buf.length - 1) ++ [93] }
    else fillChanges compressedLen budgetBytes rest { chosen := fill.chosen ++ [change], buf := buf }

/-- `Cursor::new(seq)`, or the cursor asked for. -/
def cursorAt (cursor : Cursor) (seq : Seq) : Cursor :=
  match (BoundedNum.new seq.get : Except ProtocolError Cursor) with
  | .ok next => next
  | .error _ => cursor

/-- Fills one batch from changes already read in `seq` order. -/
def fillBatch [Hashing] (compressedLen : Bytes → Nat) (scope : ScopeId) (cursor : Cursor)
    (candidates : List Change) (moreBeyond : Bool) (budgetBytes : Nat) (digest : HexString) :
    Batch :=
  let chosen := (fillChanges compressedLen budgetBytes candidates {}).chosen
  { scope := scope
    changes := chosen
    nextCursor := (chosen.getLast?.map fun change => cursorAt cursor change.seq).getD cursor
    hasMore := decide (chosen.length < candidates.length) || moreBeyond
    checksum := checksum chosen
    digest := digest }

/-! ### What a row says -/

/-- The column's text for an op. -/
def Op.text : Op → String
  | .upsert => "upsert"
  | .delete => "delete"

/-- A change as the row it was read from. -/
def Change.toRow (change : Change) : ChangeRow where
  seq := change.seq.get
  entity := change.entity.bytes
  entityId := change.entityId.bytes
  op := change.op.text
  snapshot := change.snapshot.map Document.value
  rowVersion := change.rowVersion.get
  schemaVersion := change.schemaVersion.get

private theorem liftProtocol_ok {result : Except ProtocolError α}
    (lifted : liftProtocol result = .ok value) : result = .ok value := by
  cases result with
  | ok inner => exact congrArg Except.ok (Except.ok.inj lifted)
  | error e => cases lifted

private theorem bind_ok {first : Except ServerError α} {second : α → Except ServerError β}
    (done : first >>= second = .ok value) : ∃ middle, first = .ok middle ∧ second middle = .ok value := by
  cases first with
  | ok middle => exact ⟨middle, rfl, done⟩
  | error e => cases done

private theorem unsigned_ok (done : unsigned column value = .ok n) : value = n := by
  unfold unsigned at done
  split at done
  · cases done
    omega
  · cases done

private theorem BoundedNum.get_of_new {field : String} {min max n : Nat} {made : BoundedNum field min max}
    (done : BoundedNum.new n = .ok made) : made.get = n := by
  unfold BoundedNum.new at done
  split at done
  · cases done
    rfl
  · cases done

theorem BoundedString.bytes_of_new {field expected : String} {max : Nat} {ok : UInt8 → Bool}
    {s : Bytes} {made : BoundedString field expected max ok}
    (done : BoundedString.new s = .ok made) : made.bytes = s := by
  unfold BoundedString.new at done
  split at done
  · cases done
    rfl
  · cases done

namespace ChangeRow

variable {row : ChangeRow}

private theorem parsedOp_ok {op : Op} (parsed : row.parsedOp = .ok op) : op.text = row.op := by
  unfold parsedOp at parsed
  split at parsed
  · rename_i upsert
    cases parsed
    exact upsert.symm
  · split at parsed
    · rename_i delete
      cases parsed
      exact delete.symm
    · cases parsed

private theorem parsedSnapshot_ok {op : Op} {snapshot : Option Snapshot}
    (parsed : row.parsedSnapshot op = .ok snapshot) :
    snapshot.map Document.value = row.snapshot ∧ (op = .upsert ↔ snapshot.isSome) := by
  cases op with
  | upsert =>
    cases carried : row.snapshot with
    | none =>
      simp only [parsedSnapshot, carried] at parsed
      cases parsed
    | some v =>
      simp only [parsedSnapshot, carried] at parsed
      cases made : (liftProtocol (Document.new v) : Except ServerError Snapshot) with
      | error e =>
        rw [made] at parsed
        cases parsed
      | ok document =>
        rw [made] at parsed
        cases parsed
        simp [Document.value_of_new (liftProtocol_ok made)]
  | delete =>
    cases carried : row.snapshot with
    | none =>
      simp only [parsedSnapshot, carried] at parsed
      cases parsed
      simp
    | some v =>
      simp only [parsedSnapshot, carried] at parsed
      cases parsed

private theorem parsedSchemaVersion_ok (parsed : row.parsedSchemaVersion = .ok n) :
    n = row.schemaVersion := by
  unfold parsedSchemaVersion at parsed
  split at parsed
  · cases parsed
    omega
  · cases parsed

/-- Conversion loses nothing: the change says what the row said, and is valid. -/
theorem intoChange_ok {change : Change} (converted : row.intoChange = .ok change) :
    change.toRow = row ∧ change.validate = .ok () := by
  unfold intoChange at converted
  obtain ⟨op, parsedOp, converted⟩ := bind_ok converted
  obtain ⟨snapshot, parsedSnapshot, converted⟩ := bind_ok converted
  obtain ⟨seq, seqOk, converted⟩ := bind_ok converted
  obtain ⟨rowVersion, rowVersionOk, converted⟩ := bind_ok converted
  obtain ⟨schemaVersion, schemaVersionOk, converted⟩ := bind_ok converted
  obtain ⟨seq', seqMade, converted⟩ := bind_ok converted
  obtain ⟨entity, entityMade, converted⟩ := bind_ok converted
  obtain ⟨entityId, entityIdMade, converted⟩ := bind_ok converted
  obtain ⟨rowVersion', rowVersionMade, converted⟩ := bind_ok converted
  obtain ⟨schemaVersion', schemaVersionMade, converted⟩ := bind_ok converted
  cases converted
  have seqs : (seq'.get : Int) = row.seq := by
    rw [BoundedNum.get_of_new (liftProtocol_ok seqMade), unsigned_ok seqOk]
  have versions : (rowVersion'.get : Int) = row.rowVersion := by
    rw [BoundedNum.get_of_new (liftProtocol_ok rowVersionMade), unsigned_ok rowVersionOk]
  have schemas : (schemaVersion'.get : Int) = row.schemaVersion := by
    rw [BoundedNum.get_of_new (liftProtocol_ok schemaVersionMade)]
    exact parsedSchemaVersion_ok schemaVersionOk
  have entities := BoundedString.bytes_of_new (liftProtocol_ok entityMade)
  have entityIds := BoundedString.bytes_of_new (liftProtocol_ok entityIdMade)
  obtain ⟨snapshots, carries⟩ := parsedSnapshot_ok parsedSnapshot
  constructor
  · exact ChangeRow.mk.injEq .. |>.mpr
      ⟨seqs, entities, entityIds, parsedOp_ok parsedOp, snapshots, versions, schemas⟩
  · unfold Change.validate
    cases op <;> cases snapshot <;> simp_all

end ChangeRow

/-! ### What a batch holds -/

private theorem fillChanges_split (compressedLen : Bytes → Nat) (budgetBytes : Nat)
    (candidates : List Change) (fill : BatchFill) :
    ∃ taken rest, candidates = taken ++ rest ∧
      (fillChanges compressedLen budgetBytes candidates fill).chosen = fill.chosen ++ taken ∧
      (fill.chosen = [] → candidates ≠ [] → taken ≠ []) := by
  induction candidates generalizing fill with
  | nil => exact ⟨[], [], rfl, (List.append_nil _).symm, fun _ impossible => absurd rfl impossible⟩
  | cons change rest ih =>
    unfold fillChanges
    simp only
    split
    · rename_i exceeds
      exact ⟨[], change :: rest, rfl, (List.append_nil _).symm, fun empty _ => absurd empty exceeds.2⟩
    · obtain ⟨taken, left, split, chosen, _⟩ := ih
        { chosen := fill.chosen ++ [change], buf := fill.splice (Canonical.toVec change) }
      exact ⟨change :: taken, left, by rw [split]; rfl, by rw [chosen]; simp, fun _ _ => by simp⟩

/-- A batch as a first part of its candidates: never empty while there are any,
with `next_cursor` at the last change carried. -/
structure Batch.Cut (batch : Batch) (scope : ScopeId) (cursor : Cursor) (candidates rest : List Change)
    (moreBeyond : Bool) (digest : HexString) : Prop where
  scope : batch.scope = scope
  digest : batch.digest = digest
  split : candidates = batch.changes ++ rest
  progress : candidates ≠ [] → batch.changes ≠ []
  hasMore : batch.hasMore = (!rest.isEmpty || moreBeyond)
  nextCursor : batch.nextCursor.get =
    KeyedLog.reached (fun change : Change => change.seq.get) cursor.get batch.changes

theorem fillBatch_cut [Hashing] (compressedLen : Bytes → Nat) (scope : ScopeId) (cursor : Cursor)
    (candidates : List Change) (moreBeyond : Bool) (budgetBytes : Nat) (digest : HexString) :
    ∃ rest, (fillBatch compressedLen scope cursor candidates moreBeyond budgetBytes digest).Cut
      scope cursor candidates rest moreBeyond digest := by
  obtain ⟨taken, rest, split, chosen, progress⟩ :=
    fillChanges_split compressedLen budgetBytes candidates {}
  rw [List.nil_append] at chosen
  refine ⟨rest, rfl, rfl, ?_, fun present => ?_, ?_, ?_⟩
  · exact split.trans (by rw [fillBatch, chosen])
  · rw [fillBatch, chosen]
    exact progress rfl present
  · have left : decide (taken.length < candidates.length) = !rest.isEmpty := by
      rw [split, List.length_append]
      cases rest <;> simp
    simp only [fillBatch, chosen, left]
  · simp only [fillBatch, KeyedLog.reached]
    cases (fillChanges compressedLen budgetBytes candidates {}).chosen.getLast? with
    | none => rfl
    | some change =>
      have fits : (BoundedNum.new change.seq.get : Except ProtocolError Cursor) =
          .ok ⟨change.seq.get, Nat.zero_le _, change.seq.upper⟩ :=
        dif_pos ⟨Nat.zero_le _, change.seq.upper⟩
      simp only [Option.map_some, Option.getD_some, cursorAt, fits]

end CredSync
