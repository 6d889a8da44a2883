import CredSync.Core.Pushing

/-! The gate of a forced upgrade. -/

namespace CredSync

variable [Hashing] {device : Device}

omit [Hashing] in
theorem Device.refreshOutboxIfSuspect_eq (device : Device) (faults : Faults) :
    ∃ outbox outboxSuspect, (device.refreshOutboxIfSuspect faults).2 =
      { device with engine := { device.engine with outbox := outbox, outboxSuspect := outboxSuspect } } := by
  unfold refreshOutboxIfSuspect
  split
  · split
    · exact ⟨_, _, rfl⟩
    · exact ⟨_, _, rfl⟩
  · exact ⟨_, _, rfl⟩

omit [Hashing] in
theorem Device.refreshOutboxIfSuspect_upgrade {faults : Faults} {outcome : Except StorageError Unit}
    {left : Device} (read : device.refreshOutboxIfSuspect faults = (outcome, left)) :
    left.engine.upgradeRequired = device.engine.upgradeRequired := by
  obtain ⟨outbox, doubt, reread⟩ := device.refreshOutboxIfSuspect_eq faults
  have same : (device.refreshOutboxIfSuspect faults).2 = left := congrArg Prod.snd read
  rw [← same, reread]

theorem Device.applyChanges_upgrade (device : Device) (faults : Faults) (batch : Batch)
    (compareDigest rebuilding : Bool) :
    (device.applyChanges faults batch compareDigest rebuilding).2.engine.upgradeRequired =
      device.engine.upgradeRequired := by
  have applies := device.applyChanges_applies faults batch compareDigest rebuilding
  obtain ⟨scopes, suspect, refreshed⟩ := device.refreshIfSuspect_eq faults batch.scope
  rw [refreshed] at applies
  generalize device.applyChanges faults batch compareDigest rebuilding = done at applies
  cases applies with
  | refused e => rfl
  | uncommitted e => rfl
  | committed plan trusted plans =>
    obtain ⟨emitted, advanced⟩ := advance_eq
      { device.engine with scopes := scopes, suspect := suspect } batch plan
    rw [advanced]
  | unacknowledged e plan trusted plans => rfl

/-- No call forces an upgrade or takes one for done. -/
theorem Device.call_upgrade (device : Device) (faults : Faults) (call : ClientCall) :
    (device.call faults call).engine.upgradeRequired = device.engine.upgradeRequired := by
  cases call with
  | applyBatch batch => exact device.applyChanges_upgrade faults batch _ _
  | applyBootstrap response => exact device.applyChanges_upgrade faults response.toBatch _ _
  | beginRebootstrap scope =>
    simp only [call, beginRebootstrap]
    split <;> rfl
  | reloadScope scope =>
    obtain ⟨scopes, suspect, refreshed⟩ := device.refreshIfSuspect_eq faults scope
    simp only [call, reloadScope]
    split
    · rename_i e left read
      rw [← congrArg Prod.snd read, refreshed]
    · rename_i left read
      have left' : left = (device.refreshIfSuspect faults scope).2 := (congrArg Prod.snd read).symm
      obtain ⟨outbox, doubt, reread⟩ := left.refreshOutboxIfSuspect_eq faults
      split
      · rename_i e last again
        rw [← congrArg Prod.snd again, reread, left', refreshed]
      · rename_i last again
        rw [← congrArg Prod.snd again, reread, left', refreshed]
  | clearScopeHealth scope =>
    simp only [call, clearScopeHealth]
    split <;> rfl
  | enqueue entry =>
    simp only [call, enqueue]
    split
    · rfl
    · split <;> rfl
  | buildPush compressedLen protocol budgetBytes =>
    simp only [call, buildPush]
    split
    · rename_i e left read
      exact refreshOutboxIfSuspect_upgrade read
    · rename_i left read
      have left' := refreshOutboxIfSuspect_upgrade read
      split
      · exact left'
      · split
        · exact left'
        · obtain ⟨effects, held⟩ := foldl_held (fillPush left.engine.registry left.engine.migrations
            compressedLen budgetBytes left.engine.outbox {}).held left.engine
          change (List.foldl _ _ _ : Engine).upgradeRequired = _
          rw [held]
          exact left'
  | applyResults response =>
    simp only [call, applyResults]
    split
    · rename_i e left read
      exact refreshOutboxIfSuspect_upgrade read
    · rename_i left read
      have left' := refreshOutboxIfSuspect_upgrade read
      split
      · exact left'
      · split <;> exact left'

/-! ### What the gate changes -/

/-- The same device under another state of the gate, and with other reports. -/
def Device.under (device : Device) (upgrade : Option ForcedUpgrade) (effects : List Telemetry) :
    Device :=
  { device with engine := { device.engine with upgradeRequired := upgrade, effects := effects } }

omit [Hashing] in
@[simp] theorem Device.under_db (device : Device) (upgrade : Option ForcedUpgrade)
    (effects : List Telemetry) : (device.under upgrade effects).db = device.db := rfl

/-- Whether an operation does the same under any gate, and reports the same. -/
structure Device.Blind (device : Device) (run : Device → Result × Device) (tail : List Telemetry) :
    Prop where
  effects : (run device).2.engine.effects = device.engine.effects ++ tail
  under : ∀ upgrade effects, run (device.under upgrade effects) =
    ((run device).1, (run device).2.under upgrade (effects ++ tail))

section Blind

variable (faults : Faults) (scope : ScopeId)

omit [Hashing]

theorem foldl_quarantined (quarantined : List (RowKey × SchemaVersion × String)) (engine : Engine) :
    quarantined.foldl (fun engine (key, schemaVersion, reason) =>
      engine.emit (.rowQuarantined key schemaVersion reason)) engine =
        { engine with effects := engine.effects ++ quarantined.map fun row =>
            .rowQuarantined row.1 row.2.1 row.2.2 } := by
  induction quarantined generalizing engine with
  | nil => simp
  | cons one rest ih =>
    rw [List.foldl_cons, ih]
    simp [Engine.emit]

theorem Device.blind_refreshIfSuspect (device : Device) :
    device.Blind (·.refreshIfSuspect faults scope) [] := by
  by_cases suspect : scope ∈ device.engine.suspect
  · cases read : device.db.scopeState faults scope with
    | error e => constructor <;> simp [refreshIfSuspect, under, suspect, read]
    | ok stored => constructor <;> simp [refreshIfSuspect, under, suspect, read]
  · constructor <;> simp [refreshIfSuspect, under, suspect]

theorem Device.blind_refreshOutboxIfSuspect (device : Device) :
    device.Blind (·.refreshOutboxIfSuspect faults) [] := by
  cases suspect : device.engine.outboxSuspect with
  | true =>
    cases read : device.db.readOutbox faults with
    | error e => constructor <;> simp [refreshOutboxIfSuspect, under, suspect, read]
    | ok stored => constructor <;> simp [refreshOutboxIfSuspect, under, suspect, read]
  | false => constructor <;> simp [refreshOutboxIfSuspect, under, suspect]

theorem Device.blind_reloadScope (device : Device) :
    device.Blind (·.reloadScope faults scope) [] := by
  obtain ⟨told, alike⟩ := device.blind_refreshIfSuspect faults scope
  cases read : device.refreshIfSuspect faults scope with
  | mk outcome fresh =>
    simp only [read] at told alike
    cases outcome with
    | error e => constructor <;> simp [reloadScope, read, told, alike]
    | ok _ =>
      obtain ⟨told', alike'⟩ := fresh.blind_refreshOutboxIfSuspect faults
      cases reread : fresh.refreshOutboxIfSuspect faults with
      | mk outcome last =>
        simp only [reread] at told' alike'
        cases outcome <;> constructor <;> simp_all [reloadScope]

theorem Device.blind_enqueue (device : Device) (entry : OutboxEntry) :
    device.Blind (·.enqueue faults entry) [] := by
  cases known : device.engine.registry.checkCommand entry.command with
  | error e => constructor <;> simp [enqueue, under, known]
  | ok entity =>
    cases done : device.db.transact faults [.enqueueCommand entry.command entry.schemaVersion] with
    | mk outcome db => cases outcome <;> constructor <;> simp [enqueue, under, known, done]

theorem Device.blind_beginRebootstrap (device : Device) :
    device.Blind (·.beginRebootstrap faults scope) [] := by
  cases done : device.db.transact faults (device.engine.registry.rebootstrapOps scope) with
  | mk outcome db =>
    cases outcome <;> constructor <;>
      simp [beginRebootstrap, under, done, Engine.distrust, Engine.restoreScope]

theorem Device.blind_clearScopeHealth (device : Device) :
    device.Blind (·.clearScopeHealth faults scope) [] := by
  cases done : device.db.transact faults [.recordDivergence scope 0 false] with
  | mk outcome db => cases outcome <;> constructor <;> simp [clearScopeHealth, under, done]

theorem Device.blind_applyResults (device : Device) (response : PushResponse) :
    device.Blind (·.applyResults faults response) [] := by
  obtain ⟨told, alike⟩ := device.blind_refreshOutboxIfSuspect faults
  cases read : device.refreshOutboxIfSuspect faults with
  | mk outcome fresh =>
    simp only [read] at told alike
    cases outcome with
    | error e => constructor <;> simp [applyResults, read, told, alike]
    | ok _ =>
      cases nothing : (response.results.foldl
          (answerOne fresh.engine.registry fresh.engine.outbox) {}).ops.isEmpty with
      | true =>
        refine ⟨by simp [applyResults, read, told, nothing], fun upgrade effects => ?_⟩
        simp only [applyResults, alike, read]
        simp [under, nothing]
      | false =>
        cases done : fresh.db.transact faults (response.results.foldl
            (answerOne fresh.engine.registry fresh.engine.outbox) {}).ops with
        | mk outcome db =>
          cases outcome with
          | error e =>
            refine ⟨by simp [applyResults, read, told, nothing, done], fun upgrade effects => ?_⟩
            simp only [applyResults, alike, read]
            simp [under, nothing, done]
          | ok _ =>
            refine ⟨by simp [applyResults, read, told, nothing, done], fun upgrade effects => ?_⟩
            simp only [applyResults, alike, read]
            simp [under, nothing, done]

/-- What moves in memory after a commit, and what is reported of it. -/
theorem Device.advance_under (engine : Engine) (batch : Batch) (plan : Plan) :
    ∃ tail, (advance engine batch plan).effects = engine.effects ++ tail ∧
      ∀ upgrade effects,
        advance { engine with upgradeRequired := upgrade, effects := effects } batch plan =
          { advance engine batch plan with
            upgradeRequired := upgrade, effects := effects ++ tail } := by
  unfold advance
  simp only [foldl_quarantined]
  cases plan.escalated with
  | none =>
    refine ⟨plan.quarantined.map fun row => .rowQuarantined row.1 row.2.1 row.2.2, ?_,
      fun upgrade effects => ?_⟩ <;> cases plan.heals <;> rfl
  | some attempts =>
    by_cases last : Engine.maxHealAttempts ≤ attempts
    · refine ⟨(plan.quarantined.map fun row => .rowQuarantined row.1 row.2.1 row.2.2) ++
        [.scopeDiverged batch.scope plan.digest.toHex batch.digest,
          .scopeUnhealable batch.scope attempts], ?_, fun upgrade effects => ?_⟩ <;>
        simp [Engine.taint, last, Engine.emit, Engine.restoreScope]
    · refine ⟨(plan.quarantined.map fun row => .rowQuarantined row.1 row.2.1 row.2.2) ++
        [.scopeDiverged batch.scope plan.digest.toHex batch.digest], ?_,
          fun upgrade effects => ?_⟩ <;>
        simp [Engine.taint, last, Engine.emit, Engine.restoreScope]

end Blind

section Gated

variable (faults : Faults)

theorem Device.blind_applyChanges (device : Device) (batch : Batch) (compareDigest rebuilding : Bool) :
    ∃ tail, device.Blind (·.applyChanges faults batch compareDigest rebuilding) tail := by
  obtain ⟨told, alike⟩ := device.blind_refreshIfSuspect faults batch.scope
  cases read : device.refreshIfSuspect faults batch.scope with
  | mk outcome fresh =>
    simp only [read] at told alike
    cases outcome with
    | error e => exact ⟨[], by constructor <;> simp [applyChanges, read, told, alike]⟩
    | ok _ =>
      have same (upgrade : Option ForcedUpgrade) (effects : List Telemetry) :
          (fresh.under upgrade effects).plan faults batch compareDigest rebuilding =
            fresh.plan faults batch compareDigest rebuilding := rfl
      cases plans : fresh.plan faults batch compareDigest rebuilding with
      | error e =>
        simp only [plans] at same
        exact ⟨[], by constructor <;> simp [applyChanges, read, told, alike, plans, same]⟩
      | ok plan =>
        simp only [plans] at same
        cases done : fresh.db.transact faults plan.ops with
        | mk outcome db =>
          cases outcome with
          | error e =>
            refine ⟨[], by simp [applyChanges, read, told, plans, done, Engine.distrust],
              fun upgrade effects => ?_⟩
            simp only [applyChanges, alike, read, plans, same, under_db, done]
            simp [under, Engine.distrust]
          | ok _ =>
            obtain ⟨tail, moved, under⟩ := advance_under fresh.engine batch plan
            refine ⟨tail, by simp [applyChanges, read, told, plans, done, moved],
              fun upgrade effects => ?_⟩
            simp only [applyChanges, alike, read, plans, same, under_db, done, List.append_nil]
            exact congrArg (fun engine => (_, (⟨engine, db⟩ : Device))) (under upgrade effects)

/-- Every call but a push returns the same and leaves the same under any gate. -/
theorem Device.blind_call (device : Device) {call : ClientCall}
    (other : ∀ compressedLen protocol budgetBytes, call ≠ .buildPush compressedLen protocol budgetBytes) :
    ∃ tail, device.Blind (fun device => (device.reply faults call, device.call faults call)) tail := by
  have wrapped {Result : Type} {run : Device → Result × Device} (reply : Result → CallReply)
      {tail : List Telemetry} (blind : device.Blind run tail) :
      ∃ tail, device.Blind (fun device => (reply (run device).1, (run device).2)) tail :=
    ⟨tail, blind.effects, fun upgrade effects => by simp only [blind.under upgrade effects]⟩
  cases call with
  | applyBatch batch =>
    obtain ⟨tail, blind⟩ := device.blind_applyChanges faults batch (!batch.hasMore) false
    exact wrapped .applied blind
  | applyBootstrap response =>
    obtain ⟨tail, blind⟩ :=
      device.blind_applyChanges faults response.toBatch (!response.hasMore) true
    exact wrapped .applied blind
  | beginRebootstrap scope => exact wrapped .done (device.blind_beginRebootstrap faults scope)
  | reloadScope scope => exact wrapped .done (device.blind_reloadScope faults scope)
  | clearScopeHealth scope => exact wrapped .done (device.blind_clearScopeHealth faults scope)
  | enqueue entry => exact wrapped .queued (device.blind_enqueue faults entry)
  | buildPush compressedLen protocol budgetBytes =>
    exact absurd rfl (other compressedLen protocol budgetBytes)
  | applyResults response => exact wrapped .resolved (device.blind_applyResults faults response)

/-- What a push returns while it is withheld. -/
def CallReply.withheld : CallReply → CallReply
  | .push (.ok _) => .push (.ok none)
  | reply => reply

omit [Hashing] in
/-- A push under a gate: withheld if the gate is closed, and without its reports; otherwise the
same, with the same reports. -/
theorem Device.buildPush_under (device : Device) (opened : device.engine.upgradeRequired = none)
    (compressedLen : Bytes → Nat) (protocol : ProtocolVersion) (budgetBytes : Nat)
    (upgrade : Option ForcedUpgrade) (effects : List Telemetry) :
    ∃ held : List (CommandId × SchemaVersion × String),
      (device.buildPush faults compressedLen protocol budgetBytes).2.engine.effects =
        device.engine.effects ++ held.map heldTelemetry ∧
      (device.under upgrade effects).buildPush faults compressedLen protocol budgetBytes =
        if upgrade.isSome then
          ((device.buildPush faults compressedLen protocol budgetBytes).1.map fun _ => none,
            (device.buildPush faults compressedLen protocol budgetBytes).2.under upgrade effects)
        else
          ((device.buildPush faults compressedLen protocol budgetBytes).1,
            (device.buildPush faults compressedLen protocol budgetBytes).2.under upgrade
              (effects ++ held.map heldTelemetry)) := by
  obtain ⟨told, alike⟩ := device.blind_refreshOutboxIfSuspect faults
  obtain ⟨outbox, doubt, reread⟩ := device.refreshOutboxIfSuspect_eq faults
  simp only [List.append_nil] at told alike
  cases read : device.refreshOutboxIfSuspect faults with
  | mk outcome fresh =>
    simp only [read] at told alike reread
    have pushes : fresh.engine.upgradeRequired = none := by rw [reread, opened]
    cases outcome with
    | error e =>
      refine ⟨[], by simp [buildPush, read, told], ?_⟩
      cases upgrade <;> simp [buildPush, read, alike, Except.map]
    | ok _ =>
      cases waiting : fresh.engine.outbox.isEmpty with
      | true =>
        refine ⟨[], by simp [buildPush, read, told, pushes, waiting], ?_⟩
        simp only [buildPush, read, alike, pushes, waiting]
        cases upgrade <;> simp [under, waiting, Except.map]
      | false =>
        refine ⟨(fillPush fresh.engine.registry fresh.engine.migrations compressedLen budgetBytes
          fresh.engine.outbox {}).held, ?_, ?_⟩
        · simp [buildPush, read, told, pushes, waiting, foldl_heldTelemetry]
        · simp only [buildPush, read, alike, pushes, waiting, foldl_heldTelemetry]
          cases upgrade <;> simp [under, waiting, Except.map]

end Gated

end CredSync
