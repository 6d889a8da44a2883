import CredSync.Core.Registry
import CredSync.Protocol.Integrity

/-! What the engine asks to be written, and the reference storage that carries
it out: one transaction commits whole or not at all, and may misreport which. -/

namespace CredSync

/-- How far one scope has been walked, and the digest over its rows. -/
structure ScopeState where
  cursor : Cursor
  digest : ScopeDigest
  deriving DecidableEq

/-- A scope that was never synced. -/
def ScopeState.new : ScopeState := ⟨Cursor.start, ScopeDigest.empty⟩

/-- How much a client trusts its copy of a scope. -/
inductive ScopeHealth where
  | healthy
  | tainted (attempts : Nat)
  | healed (attempts : Nat)
  | unhealable (attempts : Nat)
  deriving DecidableEq

namespace ScopeHealth

def isHealthy : ScopeHealth → Bool
  | healthy | healed _ => true
  | _ => false

def needsRebootstrap : ScopeHealth → Bool
  | tainted _ => true
  | _ => false

def attempts : ScopeHealth → Nat
  | healthy => 0
  | tainted attempts | healed attempts | unhealable attempts => attempts

end ScopeHealth

/-- How an outbox entry was resolved. -/
inductive Resolution where
  | applied (serverSeq : Option Seq)
  | superseded
  | deadLettered (reason : Reason)
  deriving DecidableEq

/-- A queued command and the schema version it was authored under. -/
structure OutboxEntry where
  command : Command
  schemaVersion : SchemaVersion

def OutboxEntry.id (entry : OutboxEntry) : CommandId := entry.command.id

/-- Rows are keyed by entity and identifier, with no scope. -/
abbrev RowKey := EntityName × EntityId

def Change.key (change : Change) : RowKey := (change.entity, change.entityId)

/-- One write in a storage transaction. -/
inductive StorageOp where
  | upsertRow (key : RowKey) (snapshot : Snapshot) (rowVersion : RowVersion)
      (schemaVersion : SchemaVersion)
  | deleteRow (key : RowKey)
  | setCursor (scope : ScopeId) (cursor : Cursor)
  | setScopeDigest (scope : ScopeId) (digest : HexString)
  | resolveCommand (id : CommandId) (resolution : Resolution)
  | saveRecoveredDraft (entity : EntityName) (commandId : CommandId) (payload : Payload)
  | recordDivergence (scope : ScopeId) (attempts : Nat) (healed : Bool)
  | clearScope (scope : ScopeId) (entities : Finset EntityName)
  | quarantineRow (key : RowKey) (snapshot : Snapshot) (schemaVersion : SchemaVersion)
      (reason : String)
  | enqueueCommand (command : Command) (schemaVersion : SchemaVersion)

structure TxOutcome where
  applied : Nat
  deriving DecidableEq

inductive StorageError where
  | transient (detail : String)
  | corrupt (detail : String)
  deriving DecidableEq

/-- A scope's persisted position; the digest stays in its stored form. -/
structure StoredScope where
  cursor : Cursor
  digest : HexString
  deriving DecidableEq

structure StoredRow where
  snapshot : Snapshot
  rowVersion : RowVersion
  schemaVersion : SchemaVersion

/-- One device's local database. -/
structure Db where
  rows : Table RowKey StoredRow := ∅
  cursors : Table ScopeId Cursor := ∅
  digests : Table ScopeId HexString := ∅
  outbox : List OutboxEntry := []
  resolved : List (CommandId × Resolution) := []
  recovered : List (CommandId × EntityName × Payload) := []
  quarantine : List (EntityId × Snapshot × SchemaVersion × String) := []
  divergences : Table ScopeId (Nat × Bool) := ∅
  enqueued : Finset CommandId := ∅

/-- What one transaction does: commit, fail first, or commit and report failure. -/
inductive StorageVerdict where
  | commit
  | failBeforeCommit
  | commitThenLoseAck
  deriving DecidableEq

/-- What storage does to one call into the engine: the fate of its transaction,
and the reads that fail. An engine call makes at most one transaction. -/
structure Faults where
  verdict : StorageVerdict := .commit
  rowVersion : RowKey → Option StorageError := fun _ => none
  scopeState : Option StorageError := none
  outbox : Option StorageError := none

/-- Storage that commits and reads as it should. -/
def Faults.none : Faults := {}

namespace Db

/-- `Db::staged`, one op. -/
def apply (db : Db) : StorageOp → Db
  | .upsertRow key snapshot rowVersion schemaVersion =>
      { db with rows := db.rows.insert key ⟨snapshot, rowVersion, schemaVersion⟩ }
  | .deleteRow key => { db with rows := Finmap.erase key db.rows }
  | .setCursor scope cursor => { db with cursors := db.cursors.insert scope cursor }
  | .setScopeDigest scope digest => { db with digests := db.digests.insert scope digest }
  | .enqueueCommand command schemaVersion =>
      { db with
        outbox := db.outbox ++ [⟨command, schemaVersion⟩]
        enqueued := insert command.id db.enqueued }
  | .resolveCommand id resolution =>
      { db with
        outbox := db.outbox.filter fun entry => entry.id ≠ id
        resolved := db.resolved ++ [(id, resolution)] }
  | .recordDivergence scope attempts healed =>
      { db with divergences := db.divergences.insert scope (attempts, healed) }
  | .clearScope scope entities =>
      { db with
        rows := db.rows.retain fun key => key.1 ∉ entities
        cursors := Finmap.erase scope db.cursors
        digests := Finmap.erase scope db.digests }
  | .quarantineRow key snapshot schemaVersion reason =>
      { db with quarantine := db.quarantine ++ [(key.2, snapshot, schemaVersion, reason)] }
  | .saveRecoveredDraft entity commandId payload =>
      { db with recovered := db.recovered ++ [(commandId, entity, payload)] }

/-- The database after every op of a transaction. -/
def staged (db : Db) (ops : List StorageOp) : Db := ops.foldl apply db

@[simp] theorem staged_nil (db : Db) : db.staged [] = db := rfl

theorem staged_cons (db : Db) (op : StorageOp) (ops : List StorageOp) :
    db.staged (op :: ops) = (db.apply op).staged ops := rfl

theorem staged_append (db : Db) (first second : List StorageOp) :
    db.staged (first ++ second) = (db.staged first).staged second :=
  List.foldl_append

/-- One transaction, with what it reports and what it leaves behind. -/
def transact (faults : Faults) (db : Db) (ops : List StorageOp) :
    Except StorageError TxOutcome × Db :=
  match faults.verdict with
  | .commit => (.ok ⟨ops.length⟩, db.staged ops)
  | .failBeforeCommit => (.error (.transient "simulated failure before commit"), db)
  | .commitThenLoseAck =>
      (.error (.transient "simulated kill between commit and acknowledgement"), db.staged ops)

def rowVersion (faults : Faults) (db : Db) (key : RowKey) :
    Except StorageError (Option RowVersion) :=
  match faults.rowVersion key with
  | some e => .error e
  | none => .ok ((db.rows.lookup key).map (·.rowVersion))

/-- The stored position of a scope: none until a cursor was written. -/
def stored (db : Db) (scope : ScopeId) : Option StoredScope :=
  (db.cursors.lookup scope).map fun cursor =>
    ⟨cursor, (db.digests.lookup scope).getD ScopeDigest.empty.toHex⟩

def scopeState (faults : Faults) (db : Db) (scope : ScopeId) :
    Except StorageError (Option StoredScope) :=
  match faults.scopeState with
  | some e => .error e
  | none => .ok (db.stored scope)

/-- What is read is what is stored. -/
theorem scopeState_ok {faults : Faults} {db : Db} {scope : ScopeId} {read : Option StoredScope}
    (ok : db.scopeState faults scope = .ok read) : db.stored scope = read := by
  unfold scopeState at ok
  split at ok
  · cases ok
  · exact Except.ok.inj ok

def readOutbox (faults : Faults) (db : Db) : Except StorageError (List OutboxEntry) :=
  match faults.outbox with
  | some e => .error e
  | none => .ok db.outbox

end Db

/-- A transaction reports success only when it committed; whatever it reports,
storage holds either all of it or none. -/
theorem Db.transact_cases (faults : Faults) (db : Db) (ops : List StorageOp) :
    (∃ outcome, Db.transact faults db ops = (.ok outcome, db.staged ops)) ∨
      ∃ e, Db.transact faults db ops = (.error e, db) ∨
        Db.transact faults db ops = (.error e, db.staged ops) := by
  unfold Db.transact
  cases faults.verdict with
  | commit => exact .inl ⟨_, rfl⟩
  | failBeforeCommit => exact .inr ⟨_, .inl rfl⟩
  | commitThenLoseAck => exact .inr ⟨_, .inr rfl⟩

end CredSync
