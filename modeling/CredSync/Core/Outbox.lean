import CredSync.Core.Engine

/-! The outbox: queueing commands, pushing them within a budget, and resolving
them by the server's verdicts; and the restart that reloads it from storage. -/

namespace CredSync

inductive OutboxError where
  | registry (e : RegistryError)
  | storage (e : StorageError)
  deriving DecidableEq

/-- What one push response resolved. -/
structure Resolved where
  resolutions : List (CommandId × Resolution)
  unknown : Nat
  deriving DecidableEq

/-- Migrates one queued command's payload up to this app's schema version. -/
def migratedCommand (registry : Registry) (migrations : Migrations) (entry : OutboxEntry) :
    Except MigrationError (Option Command) :=
  match registry.targetOf entry.command.name with
  | none => .ok none
  | some entity =>
    match registry.schemaVersionOf entity with
    | none => .ok none
    | some target =>
      if entry.schemaVersion = target then .ok none
      else match migrations.migrateValue entity entry.command.payload.value
          entry.schemaVersion target with
        | .error e => .error e
        | .ok migrated =>
          match Document.new migrated with
          | .error e => .error (.invalid entity (toString e))
          | .ok payload => .ok (some { entry.command with payload := payload })

/-- What filling a push has built: the commands chosen, their canonical bytes
as one array, and the commands held back. -/
structure PushFill where
  chosen : List Command := []
  buf : Bytes := [91, 93]
  held : List (CommandId × SchemaVersion × String) := []

/-- Splices one encoded command in before the closing bracket. -/
def PushFill.splice (fill : PushFill) (one : Bytes) : Bytes :=
  fill.buf.dropLast ++ (if fill.chosen.isEmpty then [] else [44]) ++ one ++ [93]

/-- The loop of `build_push` over the outbox. -/
def fillPush (registry : Registry) (migrations : Migrations) (compressedLen : Bytes → Nat)
    (budgetBytes : Nat) : List OutboxEntry → PushFill → PushFill
  | [], fill => fill
  | entry :: rest, fill =>
    if Limits.commandsMaxCount ≤ fill.chosen.length then fill
    else match migratedCommand registry migrations entry with
      | .error e =>
        -- skipped, not dropped: the entry stays queued
        fillPush registry migrations compressedLen budgetBytes rest
          { fill with held := fill.held ++ [(entry.id, entry.schemaVersion, toString e)] }
      | .ok migrated =>
        let command := migrated.getD entry.command
        let buf := fill.splice (Canonical.toVec command)
        let tooManyBytes := Limits.commandsMaxTotalBytes < buf.length
        let overBudget := budgetBytes < compressedLen buf
        if (tooManyBytes ∨ overBudget) ∧ fill.chosen ≠ [] then
          { fill with buf := buf.take (fill.buf.length - 1) ++ [93] }
        else
          fillPush registry migrations compressedLen budgetBytes rest
            { fill with chosen := fill.chosen ++ [command], buf := buf }

/-- The fallback for a rejection that states no reason. -/
def unstatedReason : Reason := ⟨"Rejected by the server without a stated reason.", by decide⟩

/-- What `apply_results` has decided so far. -/
structure Answering where
  ops : List StorageOp := []
  resolutions : List (CommandId × Resolution) := []
  unknown : Nat := 0
  answered : Finset CommandId := ∅

/-- The outcome a result records for the command it answers. -/
def resolutionOf (result : CommandResult) : Resolution :=
  match result.status with
  | .applied => .applied result.serverSeq
  | .superseded => .superseded
  | .rejected => .deadLettered (result.reason.getD unstatedReason)

/-- The draft a superseded edit leaves behind, for owner drafts only. -/
def recoveredDraft (registry : Registry) (entry : OutboxEntry) (result : CommandResult) :
    List StorageOp :=
  match result.status with
  | .superseded =>
    match registry.targetOf entry.command.name with
    | some entity =>
      if registry.classOf entity = some .ownerDraft then
        [.saveRecoveredDraft entity result.id entry.command.payload]
      else []
    | none => []
  | _ => []

/-- One result of the loop in `apply_results`: the first answer to a queued
command counts, everything else is unknown. -/
def answerOne (registry : Registry) (outbox : List OutboxEntry) (answering : Answering)
    (result : CommandResult) : Answering :=
  match outbox.find? fun entry => entry.id = result.id with
  | none => { answering with unknown := answering.unknown + 1 }
  | some entry =>
    if result.id ∈ answering.answered then { answering with unknown := answering.unknown + 1 }
    else
      { answering with
        ops := answering.ops ++ recoveredDraft registry entry result ++
          [.resolveCommand result.id (resolutionOf result)]
        resolutions := answering.resolutions ++ [(result.id, resolutionOf result)]
        answered := insert result.id answering.answered }

namespace Device

variable (faults : Faults)

/-- Queues a client write, persisting it before it returns. -/
def enqueue (device : Device) (entry : OutboxEntry) : Except OutboxError Unit × Device :=
  match device.engine.registry.checkCommand entry.command with
  | .error e => (.error (.registry e), device)
  | .ok _ =>
    match device.db.transact faults [.enqueueCommand entry.command entry.schemaVersion] with
    | (.error e, db) =>
        (.error (.storage e), ⟨{ device.engine with outboxSuspect := true }, db⟩)
    | (.ok _, db) =>
        (.ok (), ⟨{ device.engine with outbox := device.engine.outbox ++ [entry] }, db⟩)

/-- Builds the next push request, filling it up to the compressed byte budget. -/
def buildPush (device : Device) (compressedLen : Bytes → Nat) (protocol : ProtocolVersion)
    (budgetBytes : Nat) : Except OutboxError (Option PushRequest) × Device :=
  match device.refreshOutboxIfSuspect faults with
  | (.error e, device) => (.error (.storage e), device)
  | (.ok (), device) =>
    if device.engine.upgradeRequired.isSome then (.ok none, device)
    else if device.engine.outbox.isEmpty then (.ok none, device)
    else
      let fill := fillPush device.engine.registry device.engine.migrations compressedLen
        budgetBytes device.engine.outbox {}
      let engine := fill.held.foldl (fun engine (command, authoredUnder, reason) =>
        engine.emit (.commandHeld command authoredUnder reason)) device.engine
      (.ok (some ⟨protocol, fill.chosen⟩), { device with engine := engine })

/-- Applies the server's verdicts, resolving each command it answered. -/
def applyResults (device : Device) (response : PushResponse) :
    Except OutboxError Resolved × Device :=
  match device.refreshOutboxIfSuspect faults with
  | (.error e, device) => (.error (.storage e), device)
  | (.ok (), device) =>
    let answering := response.results.foldl
      (answerOne device.engine.registry device.engine.outbox) {}
    let resolved := Except.ok ⟨answering.resolutions, answering.unknown⟩
    if answering.ops.isEmpty then (resolved, device)
    else
      match device.db.transact faults answering.ops with
      | (.error e, db) =>
          (.error (.storage e), ⟨{ device.engine with outboxSuspect := true }, db⟩)
      | (.ok _, db) =>
          -- one `retain` for each resolution
          let outbox := answering.resolutions.foldl (fun outbox resolution =>
            outbox.filter fun entry => entry.id ≠ resolution.1) device.engine.outbox
          (resolved, ⟨{ device.engine with outbox := outbox }, db⟩)

/-- `on_upgrade_required`: pushes stop, the outbox stays. -/
def onUpgradeRequired (device : Device) (envelope : ForcedUpgrade) : Device :=
  let engine := { device.engine with upgradeRequired := some envelope }
  { device with engine := engine.emit (.upgradeRequired envelope.minProtocol
      envelope.currentProtocol envelope.reason device.engine.outbox.length) }

/-- `upgrade_completed`: the app was updated, pushes may go on. -/
def upgradeCompleted (device : Device) : Device :=
  { device with engine := { device.engine with upgradeRequired := none } }

/-- `restore_scope` and `restore_scope_health` for one subscribed scope. -/
def restoreFrom (db : Db) (engine : Engine) (scope : ScopeId) : Engine :=
  let engine := match db.stored scope with
    | some stored => engine.restoreScope scope stored.restored
    | none => engine
  match db.divergences.lookup scope with
  | some (attempts, healed) => engine.restoreScopeHealth scope attempts healed
  | none => engine

/-- A fresh engine over a database, given what storage holds for each
subscribed scope and the stored outbox. -/
def restart (registry : Registry) (migrations : Migrations) (scopes : List ScopeId) (db : Db) :
    Device where
  engine := (scopes.foldl (restoreFrom db) { registry, migrations }).restoreOutbox db.outbox
  db := db

end Device

end CredSync
