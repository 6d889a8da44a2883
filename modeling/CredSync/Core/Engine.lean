import CredSync.Core.Storage

/-! The client state machine: applying batches and bootstrap pages, rebuilding a
scope, and reloading what a failed transaction made untrustworthy. -/

namespace CredSync

inductive Telemetry where
  | rowQuarantined (key : RowKey) (schemaVersion : SchemaVersion) (reason : String)
  | scopeUnhealable (scope : ScopeId) (attempts : Nat)
  | upgradeRequired (minProtocol currentProtocol : ProtocolVersion) (reason : Reason) (queued : Nat)
  | commandHeld (command : CommandId) (authoredUnder : SchemaVersion) (reason : String)
  | scopeDiverged (scope : ScopeId) (client server : HexString)
  deriving DecidableEq

/-- Why a batch was refused. -/
inductive ApplyError where
  | outOfOrder (previous found : Nat)
  | alreadyApplied (cursor found : Nat)
  | cursorWouldRegress (nextCursor lastSeq : Nat)
  | inconsistent (detail : String)
  | appendOnlyOverwrite (key : RowKey) (stored incoming : Nat)
  | storage (e : StorageError)
  deriving DecidableEq

/-- What one accepted batch did. -/
structure Applied where
  changes : Nat
  diverged : Bool
  deriving DecidableEq

/-- The engine's memory. The five traits it owns are passed to each call instead. -/
structure Engine where
  effects : List Telemetry := []
  scopes : Table ScopeId ScopeState := ∅
  outbox : List OutboxEntry := []
  registry : Registry := Registry.new
  migrations : Migrations := Migrations.new
  suspect : Finset ScopeId := ∅
  outboxSuspect : Bool := false
  health : Table ScopeId ScopeHealth := ∅
  upgradeRequired : Option ForcedUpgrade := none

/-- An engine over the database it owns. -/
structure Device where
  engine : Engine
  db : Db

/-- The walk of `validate_ordering` over the changes; returns the last `seq`. -/
def validateChanges (cursor : Nat) :
    Option Nat → List Change → Except ApplyError (Option Nat)
  | previous, [] => .ok previous
  | previous, change :: rest =>
    let seq := change.seq.get
    if seq ≤ cursor then .error (.alreadyApplied cursor seq)
    else if previous.any (seq ≤ ·) then .error (.outOfOrder (previous.getD 0) seq)
    else match change.validate with
      | .error _ =>
        match change.op, change.snapshot with
        | .upsert, none => .error (.inconsistent "op=upsert requires a snapshot")
        | _, _ => .error (.inconsistent "op=delete must not carry a snapshot")
      | .ok () => validateChanges cursor (some seq) rest

/-- Checks every ordering rule before a single byte is written. -/
def validateOrdering (batch : Batch) (cursor : Nat) : Except ApplyError Unit :=
  match validateChanges cursor none batch.changes with
  | .error e => .error e
  | .ok none => .ok ()
  | .ok (some lastSeq) =>
    if batch.nextCursor.get < lastSeq then
      .error (.cursorWouldRegress batch.nextCursor.get lastSeq)
    else .ok ()

/-- What staging a batch has built so far. `staged` holds the version each row
will be at, `none` inside for a row the batch deletes. -/
structure Staging where
  digest : ScopeDigest
  ops : List StorageOp := []
  staged : Table RowKey (Option RowVersion) := ∅
  quarantined : List (RowKey × SchemaVersion × String) := []

section Staging

variable [Hashing] (faults : Faults) (db : Db)

/-- What this batch has decided wins over what storage still says. -/
def Staging.current (staging : Staging) (key : RowKey) :
    Except ApplyError (Option RowVersion) :=
  match staging.staged.lookup key with
  | some pending => .ok pending
  | none => (db.rowVersion faults key).mapError .storage

/-- The digest after a row moves from the version held to a new one. -/
def ScopeDigest.replace (digest : ScopeDigest) (key : RowKey) (current : Option RowVersion)
    (new : RowVersion) : ScopeDigest :=
  match current with
  | some old => digest.update key.1 key.2 old new
  | none => digest.add key.1 key.2 new

/-- The digest after a row that may not be held goes away. -/
def ScopeDigest.discard (digest : ScopeDigest) (key : RowKey) (current : Option RowVersion) :
    ScopeDigest :=
  match current with
  | some old => digest.remove key.1 key.2 old
  | none => digest

/-- The stored version an append-only row would be overwritten from. -/
def appendOnlyConflict (cls : Option ConflictClass) (current : Option RowVersion)
    (incoming : RowVersion) : Option RowVersion :=
  match cls, current with
  | some .appendOnly, some old => if old ≠ incoming then some old else none
  | _, _ => none

/-- Builds the ops for one change and folds it into the running digest. -/
def stageChange (change : Change) (cls : Option ConflictClass) (staging : Staging) :
    Except ApplyError Staging :=
  match staging.current faults db change.key with
  | .error e => .error e
  | .ok current =>
    match change.op with
    | .upsert =>
      match change.snapshot with
      | none => .error (.inconsistent "op=upsert requires a snapshot")
      | some snapshot =>
        match appendOnlyConflict cls current change.rowVersion with
        | some old => .error (.appendOnlyOverwrite change.key old.get change.rowVersion.get)
        | none => .ok
          { staging with
            digest := staging.digest.replace change.key current change.rowVersion
            ops := staging.ops ++
              [.upsertRow change.key snapshot change.rowVersion change.schemaVersion]
            staged := staging.staged.insert change.key (some change.rowVersion) }
    | .delete => .ok
      { staging with
        digest := staging.digest.discard change.key current
        ops := staging.ops ++ [.deleteRow change.key]
        staged := staging.staged.insert change.key none }

/-- Sets a row aside; the digest still moves as though it had been applied. -/
def stageQuarantine (change : Change) (reason : String) (staging : Staging) :
    Except ApplyError Staging :=
  match staging.current faults db change.key with
  | .error e => .error e
  | .ok current =>
    match change.snapshot with
    | none => .error (.inconsistent "a tombstone cannot be quarantined")
    | some snapshot => .ok
      { staging with
        digest := staging.digest.replace change.key current change.rowVersion
        ops := staging.ops ++ [.quarantineRow change.key snapshot change.schemaVersion reason]
        staged := staging.staged.insert change.key (some change.rowVersion) }

end Staging

namespace Engine

def scopeHealth (engine : Engine) (scope : ScopeId) : ScopeHealth :=
  (engine.health.lookup scope).getD .healthy

def scopeStateOr (engine : Engine) (scope : ScopeId) : ScopeState :=
  (engine.scopes.lookup scope).getD ScopeState.new

def needsReload (engine : Engine) (scope : ScopeId) : Bool := scope ∈ engine.suspect

def emit (engine : Engine) (effect : Telemetry) : Engine :=
  { engine with effects := engine.effects ++ [effect] }

/-- After how many divergences automatic healing gives up. -/
def maxHealAttempts : Nat := 3

/-- Migrates one change to this app's schema version, if it needs it. -/
def migratedChange (engine : Engine) (change : Change) : Except MigrationError (Option Change) :=
  match engine.registry.schemaVersionOf change.entity with
  | none => .ok none
  | some target =>
    if change.schemaVersion = target then .ok none
    else match change.snapshot with
      | none => .ok none
      | some snapshot =>
        match engine.migrations.migrateValue change.entity snapshot.value
            change.schemaVersion target with
        | .error e => .error e
        | .ok migrated =>
          match Document.new migrated with
          | .error e => .error (.invalid change.entity (toString e))
          | .ok snapshot =>
            .ok (some { change with snapshot := some snapshot, schemaVersion := target })

/-- `restore_scope`: seeds a scope from what storage holds. -/
def restoreScope (engine : Engine) (scope : ScopeId) (state : ScopeState) : Engine :=
  { engine with scopes := engine.scopes.insert scope state }

/-- `restore_outbox`: the queued commands, oldest first. -/
def restoreOutbox (engine : Engine) (entries : List OutboxEntry) : Engine :=
  { engine with outbox := engine.outbox ++ entries }

/-- The health a stored divergence record stands for. -/
def restoredHealth (attempts : Nat) (healed : Bool) : ScopeHealth :=
  if healed then .healed attempts
  else if maxHealAttempts ≤ attempts then .unhealable attempts
  else .tainted attempts

def restoreScopeHealth (engine : Engine) (scope : ScopeId) (attempts : Nat) (healed : Bool) :
    Engine :=
  if attempts = 0 then { engine with health := Finmap.erase scope engine.health }
  else { engine with health := engine.health.insert scope (restoredHealth attempts healed) }

/-- Records a divergence in memory, after the transaction carrying it. -/
def taint (engine : Engine) (scope : ScopeId) (attempts : Nat) : Engine :=
  if maxHealAttempts ≤ attempts then
    let engine := engine.emit (.scopeUnhealable scope attempts)
    { engine with health := engine.health.insert scope (.unhealable attempts) }
  else { engine with health := engine.health.insert scope (.tainted attempts) }

/-- A transaction failed: neither this scope nor the outbox can be trusted. -/
def distrust (engine : Engine) (scope : ScopeId) : Engine :=
  { engine with suspect := insert scope engine.suspect, outboxSuspect := true }

end Engine

/-- `u32::saturating_add(1)`. -/
def saturatingSucc (n : Nat) : Nat := min (n + 1) Limits.u32Max

/-- The digest a stored scope stands for; one that cannot be parsed counts as empty. -/
def StoredScope.parsed (stored : StoredScope) : ScopeDigest :=
  ((fromStrRadix stored.digest.bytes).map ScopeDigest.mk).getD ScopeDigest.empty

def StoredScope.restored (stored : StoredScope) : ScopeState := ⟨stored.cursor, stored.parsed⟩

/-- Everything an apply decides before its transaction. -/
structure Plan where
  ops : List StorageOp
  digest : ScopeDigest
  quarantined : List (RowKey × SchemaVersion × String)
  diverged : Bool
  escalated : Option Nat
  heals : Bool

namespace Device

variable [Hashing] (faults : Faults)

/-- Re-reads a scope's cursor and digest if a transaction failed on it. -/
def refreshIfSuspect (device : Device) (scope : ScopeId) : Except ApplyError Unit × Device :=
  if scope ∈ device.engine.suspect then
    match device.db.scopeState faults scope with
    | .error e => (.error (.storage e), device)
    | .ok stored =>
      let scopes := match stored with
        | some stored => device.engine.scopes.insert scope stored.restored
        | none => Finmap.erase scope device.engine.scopes
      (.ok (), { device with
        engine := { device.engine with
          scopes := scopes
          suspect := device.engine.suspect.erase scope } })
  else (.ok (), device)

/-- Re-reads the outbox if a transaction failed. -/
def refreshOutboxIfSuspect (device : Device) : Except StorageError Unit × Device :=
  if device.engine.outboxSuspect then
    match device.db.readOutbox faults with
    | .error e => (.error e, device)
    | .ok stored => (.ok (), { device with
        engine := { device.engine with outbox := stored, outboxSuspect := false } })
  else (.ok (), device)

/-- `reload_scope`: reconciles a scope and the outbox with storage. -/
def reloadScope (device : Device) (scope : ScopeId) : Except ApplyError Unit × Device :=
  match device.refreshIfSuspect faults scope with
  | (.error e, device) => (.error e, device)
  | (.ok (), device) =>
    match device.refreshOutboxIfSuspect faults with
    | (.error _, device) =>
        (.error (.storage (.corrupt "the outbox could not be reloaded")), device)
    | (.ok (), device) => (.ok (), device)

/-- One change of the loop in `apply_changes`. -/
def stageOne (device : Device) (staging : Staging) (change : Change) : Except ApplyError Staging :=
  let cls := device.engine.registry.classOf change.entity
  match device.engine.migratedChange change with
  | .ok none => stageChange faults device.db change cls staging
  | .ok (some migrated) => stageChange faults device.db migrated cls staging
  | .error e =>
    match stageQuarantine faults device.db change (toString e) staging with
    | .error refused => .error refused
    | .ok staging => .ok { staging with
        quarantined := staging.quarantined ++ [(change.key, change.schemaVersion, toString e)] }

/-- `apply_changes` up to its transaction: validate, stage, judge the digest. -/
def plan (device : Device) (batch : Batch) (compareDigest rebuilding : Bool) :
    Except ApplyError Plan :=
  let state := device.engine.scopeStateOr batch.scope
  match validateOrdering batch state.cursor.get with
  | .error e => .error e
  | .ok () =>
    match batch.changes.foldlM (device.stageOne faults) { digest := state.digest } with
    | .error e => .error e
    | .ok staging =>
      let health := device.engine.scopeHealth batch.scope
      let diverged := compareDigest && staging.digest.toHex ≠ batch.digest
      let counts := diverged && (health.isHealthy || (rebuilding && health.needsRebootstrap))
      let escalated := if counts then some (saturatingSucc health.attempts) else none
      let heals := compareDigest && !diverged && health.needsRebootstrap
      .ok {
        ops := staging.ops ++ [.setCursor batch.scope batch.nextCursor,
            .setScopeDigest batch.scope staging.digest.toHex] ++
          (match escalated with
            | some attempts => [.recordDivergence batch.scope attempts false]
            | none => []) ++
          (if heals then [.recordDivergence batch.scope health.attempts true] else [])
        digest := staging.digest
        quarantined := staging.quarantined
        diverged := diverged
        escalated := escalated
        heals := heals }

/-- What moves in memory once the transaction has committed. -/
def advance (engine : Engine) (batch : Batch) (plan : Plan) : Engine :=
  let health := engine.scopeHealth batch.scope
  let engine := engine.restoreScope batch.scope ⟨batch.nextCursor, plan.digest⟩
  let engine := plan.quarantined.foldl (fun engine (key, schemaVersion, reason) =>
    engine.emit (.rowQuarantined key schemaVersion reason)) engine
  match plan.escalated with
  | some attempts =>
    (engine.emit (.scopeDiverged batch.scope plan.digest.toHex batch.digest)).taint
      batch.scope attempts
  | none =>
    if plan.heals then
      { engine with health := engine.health.insert batch.scope (.healed health.attempts) }
    else engine

/-- The shared body of `apply_batch` and `apply_bootstrap`. -/
def applyChanges (device : Device) (batch : Batch) (compareDigest rebuilding : Bool) :
    Except ApplyError Applied × Device :=
  match device.refreshIfSuspect faults batch.scope with
  | (.error e, device) => (.error e, device)
  | (.ok (), device) =>
    match device.plan faults batch compareDigest rebuilding with
    | .error e => (.error e, device)
    | .ok plan =>
      match device.db.transact faults plan.ops with
      | (.error e, db) => (.error (.storage e), ⟨device.engine.distrust batch.scope, db⟩)
      | (.ok _, db) =>
        (.ok ⟨batch.changes.length, plan.diverged⟩, ⟨advance device.engine batch plan, db⟩)

/-- Applies one pulled batch. Digests are compared on the last batch of a walk. -/
def applyBatch (device : Device) (batch : Batch) : Except ApplyError Applied × Device :=
  device.applyChanges faults batch (!batch.hasMore) false

end Device

def BootstrapResponse.toBatch (response : BootstrapResponse) : Batch where
  scope := response.scope
  changes := response.changes
  nextCursor := response.nextCursor
  hasMore := response.hasMore
  checksum := response.checksum
  digest := response.digest

/-- What `begin_rebootstrap` asks of storage. -/
def Registry.rebootstrapOps (registry : Registry) (scope : ScopeId) : List StorageOp :=
  [.clearScope scope (registry.entitiesOf scope), .setCursor scope Cursor.start,
    .setScopeDigest scope ScopeDigest.empty.toHex]

namespace Device

variable [Hashing] (faults : Faults)

/-- Applies one page of a bootstrap. Divergence is not judged until the last page. -/
def applyBootstrap (device : Device) (response : BootstrapResponse) :
    Except ApplyError Applied × Device :=
  device.applyChanges faults response.toBatch (!response.hasMore) true

/-- Clears a scope's rows and resets its cursor, ready for a fresh bootstrap. -/
def beginRebootstrap (device : Device) (scope : ScopeId) : Except ApplyError Unit × Device :=
  match device.db.transact faults (device.engine.registry.rebootstrapOps scope) with
  | (.error e, db) => (.error (.storage e), ⟨device.engine.distrust scope, db⟩)
  | (.ok _, db) => (.ok (), ⟨device.engine.restoreScope scope ScopeState.new, db⟩)

/-- Forgets a scope's divergence history. A failed write marks nothing suspect. -/
def clearScopeHealth (device : Device) (scope : ScopeId) : Except ApplyError Unit × Device :=
  match device.db.transact faults [.recordDivergence scope 0 false] with
  | (.error e, db) => (.error (.storage e), ⟨device.engine, db⟩)
  | (.ok _, db) => (.ok (), ⟨{ device.engine with
      health := Finmap.erase scope device.engine.health }, db⟩)

end Device

namespace Sample

/-- Notes are the one entity of the one scope. -/
def notes : Registry := Registry.new.registerEntity ⟨note, scope, .ownerDraft, schema⟩

end Sample

end CredSync
