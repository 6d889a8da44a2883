import CredSync.Core.ApplySpec
import CredSync.Core.Outbox
import CredSync.Library.Run

/-! The calls a host makes into the engine, and what they do to the engine's
memory: whatever storage did to each of them, the position in memory of a scope
that is not suspect is the one storage would report. -/

namespace CredSync

/-! ### Outbox writes -/

/-- The ops that queue and resolve commands. -/
def StorageOp.isOutbox : StorageOp → Bool
  | .enqueueCommand .. | .resolveCommand .. | .saveRecoveredDraft .. => true
  | _ => false

/-- Outbox writes leave rows, positions and divergences alone. -/
theorem Db.staged_isOutbox (db : Db) (only : ∀ op ∈ ops, op.isOutbox = true) :
    ∃ outbox resolved recovered enqueued, db.staged ops =
      { db with
        outbox := outbox, resolved := resolved, recovered := recovered, enqueued := enqueued } := by
  induction ops generalizing db with
  | nil => exact ⟨db.outbox, db.resolved, db.recovered, db.enqueued, rfl⟩
  | cons op rest ih =>
    have first := only op List.mem_cons_self
    obtain ⟨outbox, resolved, recovered, enqueued, others⟩ := ih (db.apply op) fun later member =>
      only later (List.mem_cons_of_mem _ member)
    rw [Db.staged_cons, others]
    cases op <;> first | exact absurd first Bool.false_ne_true | exact ⟨_, _, _, _, rfl⟩

theorem recoveredDraft_isOutbox (registry : Registry) (entry : OutboxEntry)
    (result : CommandResult) : ∀ op ∈ recoveredDraft registry entry result, op.isOutbox = true := by
  intro op member
  unfold recoveredDraft at member
  split at member
  · split at member
    · split at member
      · rw [List.mem_singleton.mp member]
        rfl
      · cases member
    · cases member
  · cases member

theorem answering_isOutbox (registry : Registry) (outbox : List OutboxEntry)
    (results : List CommandResult) (answering : Answering)
    (earlier : ∀ op ∈ answering.ops, op.isOutbox = true) :
    ∀ op ∈ (results.foldl (answerOne registry outbox) answering).ops, op.isOutbox = true := by
  induction results generalizing answering with
  | nil => exact earlier
  | cons result rest ih =>
    refine ih _ ?_
    unfold answerOne
    split
    · exact earlier
    · split
      · exact earlier
      · intro op member
        rcases List.mem_append.mp member with member | member
        · rcases List.mem_append.mp member with member | member
          · exact earlier op member
          · exact recoveredDraft_isOutbox _ _ _ op member
        · rw [List.mem_singleton.mp member]
          rfl

/-! ### Calls -/

/-- One call a host makes into the engine. -/
inductive ClientCall where
  | applyBatch (batch : Batch)
  | applyBootstrap (response : BootstrapResponse)
  | beginRebootstrap (scope : ScopeId)
  | reloadScope (scope : ScopeId)
  | clearScopeHealth (scope : ScopeId)
  | enqueue (entry : OutboxEntry)
  | buildPush (compressedLen : Bytes → Nat) (protocol : ProtocolVersion) (budgetBytes : Nat)
  | applyResults (response : PushResponse)

/-- The device after a call, whatever the call returned. -/
def Device.call [Hashing] (device : Device) (faults : Faults) : ClientCall → Device
  | .applyBatch batch => (device.applyBatch faults batch).2
  | .applyBootstrap response => (device.applyBootstrap faults response).2
  | .beginRebootstrap scope => (device.beginRebootstrap faults scope).2
  | .reloadScope scope => (device.reloadScope faults scope).2
  | .clearScopeHealth scope => (device.clearScopeHealth faults scope).2
  | .enqueue entry => (device.enqueue faults entry).2
  | .buildPush compressedLen protocol budgetBytes =>
      (device.buildPush faults compressedLen protocol budgetBytes).2
  | .applyResults response => (device.applyResults faults response).2

/-- What a call returns. -/
inductive CallReply where
  | applied (result : Except ApplyError Applied)
  | done (result : Except ApplyError Unit)
  | queued (result : Except OutboxError Unit)
  | push (result : Except OutboxError (Option PushRequest))
  | resolved (result : Except OutboxError Resolved)

def CallReply.isOk : CallReply → Bool
  | .applied result => result.isOk
  | .done result => result.isOk
  | .queued result => result.isOk
  | .push result => result.isOk
  | .resolved result => result.isOk

/-- What a call returns to the host. -/
def Device.reply [Hashing] (device : Device) (faults : Faults) : ClientCall → CallReply
  | .applyBatch batch => .applied (device.applyBatch faults batch).1
  | .applyBootstrap response => .applied (device.applyBootstrap faults response).1
  | .beginRebootstrap scope => .done (device.beginRebootstrap faults scope).1
  | .reloadScope scope => .done (device.reloadScope faults scope).1
  | .clearScopeHealth scope => .done (device.clearScopeHealth faults scope).1
  | .enqueue entry => .queued (device.enqueue faults entry).1
  | .buildPush compressedLen protocol budgetBytes =>
      .push (device.buildPush faults compressedLen protocol budgetBytes).1
  | .applyResults response => .resolved (device.applyResults faults response).1

/-! ### Memory and storage -/

/-- The position a restart would restore for a scope. -/
def Db.position (db : Db) (scope : ScopeId) : ScopeState :=
  ((db.stored scope).map StoredScope.restored).getD ScopeState.new

theorem ScopeDigest.restored_toHex (cursor : Cursor) (digest : ScopeDigest) :
    (StoredScope.mk cursor digest.toHex).restored = ⟨cursor, digest⟩ := by
  simp [StoredScope.restored, StoredScope.parsed, ScopeDigest.toHex, fromStrRadix_hexChars]

theorem Db.position_congr {db db' : Db} {scope : ScopeId}
    (cursors : db'.cursors.lookup scope = db.cursors.lookup scope)
    (digests : db'.digests.lookup scope = db.digests.lookup scope) :
    db'.position scope = db.position scope := by
  rw [position, position, stored, stored, cursors, digests]

/-- A position written with its digest is the position read back. -/
theorem Db.position_written {db : Db} {scope : ScopeId}
    (cursor : db.cursors.lookup scope = some state.cursor)
    (digest : db.digests.lookup scope = some state.digest.toHex) : db.position scope = state := by
  rw [position, stored, cursor, digest, Option.map_some, Option.map_some, Option.getD_some,
    Option.getD_some, ScopeDigest.restored_toHex]

/-- Memory agrees with storage on every scope that is not suspect. -/
def Device.Mirrors (device : Device) : Prop :=
  ∀ scope ∉ device.engine.suspect, device.engine.scopeStateOr scope = device.db.position scope

theorem Engine.scopeStateOr_insert (engine : Engine) (scope other : ScopeId) (state : ScopeState) :
    Engine.scopeStateOr { engine with scopes := engine.scopes.insert scope state } other =
      if other = scope then state else engine.scopeStateOr other := by
  rw [scopeStateOr, Table.lookup_insert_if]
  split <;> rfl

/-- Refreshing changes what memory holds for one scope, and leaves it trusted. -/
theorem Device.refreshIfSuspect_eq (device : Device) (faults : Faults) (scope : ScopeId) :
    ∃ scopes suspect, (device.refreshIfSuspect faults scope).2 =
      { device with engine := { device.engine with scopes := scopes, suspect := suspect } } := by
  unfold refreshIfSuspect
  split
  · split
    · exact ⟨_, _, rfl⟩
    · exact ⟨_, _, rfl⟩
  · exact ⟨_, _, rfl⟩

variable {device after : Device} {batch : Batch} {plan : Plan}

theorem Device.Mirrors.refresh (mirrors : device.Mirrors) (faults : Faults) (scope : ScopeId) :
    (device.refreshIfSuspect faults scope).2.Mirrors := by
  unfold refreshIfSuspect
  split
  · split
    · exact mirrors
    · rename_i stored read
      intro other trusted
      have found : device.db.stored scope = stored := Db.scopeState_ok read
      rw [Db.position]
      by_cases here : other = scope
      · subst here
        rw [found]
        cases stored with
        | some stored => simp [Engine.scopeStateOr]
        | none => simp [Engine.scopeStateOr, Finmap.lookup_erase]
      · have before : other ∉ device.engine.suspect := fun member =>
          trusted (Finset.mem_erase.mpr ⟨here, member⟩)
        rw [← Db.position, ← mirrors other before]
        cases stored with
        | some stored => simp [Engine.scopeStateOr, here]
        | none => simp [Engine.scopeStateOr, Finmap.lookup_erase_ne here]
  · exact mirrors

/-- A call that leaves every scope as it was, in memory and in storage. -/
structure Device.SameScopes (before after : Device) : Prop where
  scopes : after.engine.scopes = before.engine.scopes
  suspect : after.engine.suspect = before.engine.suspect
  registry : after.engine.registry = before.engine.registry
  migrations : after.engine.migrations = before.engine.migrations
  rows : after.db.rows = before.db.rows
  cursors : after.db.cursors = before.db.cursors
  digests : after.db.digests = before.db.digests

theorem Device.SameScopes.refl (device : Device) : device.SameScopes device :=
  ⟨rfl, rfl, rfl, rfl, rfl, rfl, rfl⟩

theorem Device.SameScopes.trans (first : device.SameScopes middle) (second : middle.SameScopes after) :
    device.SameScopes after :=
  ⟨second.scopes.trans first.scopes, second.suspect.trans first.suspect,
    second.registry.trans first.registry, second.migrations.trans first.migrations,
    second.rows.trans first.rows, second.cursors.trans first.cursors,
    second.digests.trans first.digests⟩

theorem Device.Mirrors.frame (mirrors : device.Mirrors) (same : device.SameScopes after) :
    after.Mirrors := by
  intro scope trusted
  rw [same.suspect] at trusted
  have agreed := mirrors scope trusted
  rw [Engine.scopeStateOr] at agreed ⊢
  rw [same.scopes, agreed]
  exact (Db.position_congr (by rw [same.cursors]) (by rw [same.digests])).symm

/-- Marking a scope suspect needs agreement everywhere else only. -/
theorem Device.Mirrors.distrust (mirrors : device.Mirrors) (scope : ScopeId) {left : Db}
    (elsewhere : ∀ other, other ≠ scope → left.position other = device.db.position other) :
    Device.Mirrors ⟨device.engine.distrust scope, left⟩ := by
  intro other trusted
  have apart : other ≠ scope ∧ other ∉ device.engine.suspect := by
    simpa [Engine.distrust, not_or] using trusted
  change device.engine.scopeStateOr other = left.position other
  rw [elsewhere other apart.1]
  exact mirrors other apart.2

section Steps

variable [Hashing]

theorem Device.Plans.position (plans : device.Plans batch compareDigest rebuilding plan)
    (scope : ScopeId) : (device.db.staged plan.ops).position scope =
      if scope = batch.scope then ⟨batch.nextCursor, plan.digest⟩ else device.db.position scope := by
  by_cases same : scope = batch.scope
  · rw [if_pos same, same]
    exact Db.position_written (by rw [plans.cursors, Finmap.lookup_insert])
      (by rw [plans.digests, Finmap.lookup_insert])
  · rw [if_neg same]
    exact Db.position_congr (by rw [plans.cursors, Finmap.lookup_insert_of_ne _ same])
      (by rw [plans.digests, Finmap.lookup_insert_of_ne _ same])

theorem Device.Mirrors.applies (mirrors : device.Mirrors)
    (applies : device.Applies batch compareDigest rebuilding (result, after)) : after.Mirrors := by
  cases applies with
  | refused e => exact mirrors
  | committed plan _ plans =>
    obtain ⟨emitted, moved⟩ := Device.advance_eq device.engine batch plan
    intro other trusted
    simp only [moved] at trusted ⊢
    rw [plans.position]
    exact (device.engine.scopeStateOr_insert _ _ _).trans (by rw [mirrors other trusted])
  | unacknowledged e plan _ plans =>
    exact mirrors.distrust _ fun other elsewhere => by rw [plans.position, if_neg elsewhere]
  | uncommitted e => exact mirrors.distrust _ fun _ _ => rfl

omit [Hashing] in
/-- What a rebuild's transaction leaves of the positions. -/
theorem Db.cleared_cursors (db : Db) (registry : Registry) (scope other : ScopeId) :
    (db.staged (registry.rebootstrapOps scope)).cursors.lookup other =
      if other = scope then some Cursor.start else db.cursors.lookup other := by
  change Finmap.lookup other ((Finmap.erase scope db.cursors).insert scope Cursor.start) = _
  rw [Table.lookup_insert_if, Table.lookup_erase_if]
  split <;> rfl

omit [Hashing] in
theorem Db.cleared_digests (db : Db) (registry : Registry) (scope other : ScopeId) :
    (db.staged (registry.rebootstrapOps scope)).digests.lookup other =
      if other = scope then some ScopeDigest.empty.toHex else db.digests.lookup other := by
  change Finmap.lookup other ((Finmap.erase scope db.digests).insert scope _) = _
  rw [Table.lookup_insert_if, Table.lookup_erase_if]
  split <;> rfl

omit [Hashing] in
/-- Only rows of the entities the registry lists for the scope are wiped. -/
theorem Db.cleared_holding (db : Db) (registry : Registry) (scope : ScopeId) (key : RowKey) :
    (db.staged (registry.rebootstrapOps scope)).holding key =
      if registry.scopeOf key.1 = some scope then none else db.holding key := by
  change Finmap.lookup key (db.rows.retain fun key => key.1 ∉ registry.entitiesOf scope) = _
  rw [Table.lookup_retain]
  by_cases inside : registry.scopeOf key.1 = some scope <;>
    simp [inside, Registry.mem_entitiesOf, Db.holding]

omit [Hashing] in
theorem Db.cleared_position (db : Db) (registry : Registry) (scope other : ScopeId) :
    (db.staged (registry.rebootstrapOps scope)).position other =
      if other = scope then ScopeState.new else db.position other := by
  by_cases same : other = scope
  · rw [if_pos same, same]
    exact Db.position_written (by rw [Db.cleared_cursors, if_pos rfl]; rfl)
      (by rw [Db.cleared_digests, if_pos rfl]; rfl)
  · rw [if_neg same]
    exact Db.position_congr (by rw [Db.cleared_cursors, if_neg same])
      (by rw [Db.cleared_digests, if_neg same])

omit [Hashing] in
theorem Device.Mirrors.beginRebootstrap (mirrors : device.Mirrors) (faults : Faults)
    (scope : ScopeId) : (device.beginRebootstrap faults scope).2.Mirrors := by
  unfold Device.beginRebootstrap
  obtain ⟨outcome, done⟩ | ⟨e, lost | done⟩ := Db.transact_cases faults device.db
    (device.engine.registry.rebootstrapOps scope)
  · simp only [done]
    intro other trusted
    rw [Db.cleared_position]
    exact (device.engine.scopeStateOr_insert _ _ _).trans (by rw [mirrors other trusted])
  · simp only [lost]
    exact mirrors.distrust _ fun _ _ => rfl
  · simp only [done]
    exact mirrors.distrust _ fun other elsewhere => by rw [Db.cleared_position, if_neg elsewhere]

omit [Hashing] in
theorem Device.refreshOutboxIfSuspect_same (device : Device) (faults : Faults) :
    device.SameScopes (device.refreshOutboxIfSuspect faults).2 := by
  unfold refreshOutboxIfSuspect
  split
  · split <;> exact ⟨rfl, rfl, rfl, rfl, rfl, rfl, rfl⟩
  · exact .refl device

omit [Hashing] in
/-- Reloading a scope refreshes it; the outbox it reads next is nothing to the scopes. -/
theorem Device.reloadScope_same (device : Device) (faults : Faults) (scope : ScopeId) :
    (device.refreshIfSuspect faults scope).2.SameScopes (device.reloadScope faults scope).2 := by
  unfold reloadScope
  rcases device.refreshIfSuspect faults scope with ⟨_ | _, fresh⟩
  · exact .refl fresh
  · have same := fresh.refreshOutboxIfSuspect_same faults
    simp only
    generalize fresh.refreshOutboxIfSuspect faults = outcome at same ⊢
    obtain ⟨_ | _, final⟩ := outcome <;> exact same

omit [Hashing] in
theorem Device.clearScopeHealth_same (device : Device) (faults : Faults) (scope : ScopeId) :
    device.SameScopes (device.clearScopeHealth faults scope).2 := by
  unfold clearScopeHealth
  obtain ⟨outcome, done⟩ | ⟨e, lost | done⟩ := Db.transact_cases faults device.db
    [.recordDivergence scope 0 false]
  · rw [done]
    exact ⟨rfl, rfl, rfl, rfl, rfl, rfl, rfl⟩
  · rw [lost]
    exact .refl device
  · rw [done]
    exact ⟨rfl, rfl, rfl, rfl, rfl, rfl, rfl⟩

omit [Hashing] in
theorem Device.enqueue_same (device : Device) (faults : Faults) (entry : OutboxEntry) :
    device.SameScopes (device.enqueue faults entry).2 := by
  unfold enqueue
  cases device.engine.registry.checkCommand entry.command with
  | error e => exact .refl device
  | ok entity =>
    obtain ⟨outcome, done⟩ | ⟨e, lost | done⟩ := Db.transact_cases faults device.db
      [.enqueueCommand entry.command entry.schemaVersion]
    · simp only [done]
      exact ⟨rfl, rfl, rfl, rfl, rfl, rfl, rfl⟩
    · simp only [lost]
      exact ⟨rfl, rfl, rfl, rfl, rfl, rfl, rfl⟩
    · simp only [done]
      exact ⟨rfl, rfl, rfl, rfl, rfl, rfl, rfl⟩

omit [Hashing] in
theorem foldl_held (held : List (CommandId × SchemaVersion × String)) (engine : Engine) :
    ∃ effects, held.foldl (fun engine (command, authoredUnder, reason) =>
      engine.emit (.commandHeld command authoredUnder reason)) engine =
        { engine with effects := effects } := by
  induction held generalizing engine with
  | nil => exact ⟨_, rfl⟩
  | cons one rest ih => exact ih (engine.emit (.commandHeld one.1 one.2.1 one.2.2))

omit [Hashing] in
theorem Device.buildPush_same (device : Device) (faults : Faults) (compressedLen : Bytes → Nat)
    (protocol : ProtocolVersion) (budgetBytes : Nat) :
    device.SameScopes (device.buildPush faults compressedLen protocol budgetBytes).2 := by
  have same := device.refreshOutboxIfSuspect_same faults
  unfold buildPush
  generalize device.refreshOutboxIfSuspect faults = outcome at same ⊢
  obtain ⟨_ | _, fresh⟩ := outcome
  · exact same
  · simp only
    split
    · exact same
    · split
      · exact same
      · obtain ⟨effects, emitted⟩ := foldl_held (fillPush fresh.engine.registry
          fresh.engine.migrations compressedLen budgetBytes fresh.engine.outbox {}).held fresh.engine
        simp only [emitted]
        exact same.trans ⟨rfl, rfl, rfl, rfl, rfl, rfl, rfl⟩

omit [Hashing] in
theorem Device.applyResults_same (device : Device) (faults : Faults) (response : PushResponse) :
    device.SameScopes (device.applyResults faults response).2 := by
  have same := device.refreshOutboxIfSuspect_same faults
  unfold applyResults
  generalize device.refreshOutboxIfSuspect faults = outcome at same ⊢
  obtain ⟨_ | _, fresh⟩ := outcome
  · exact same
  · simp only at same ⊢
    generalize answered : response.results.foldl _ _ = answering
    split
    · exact same
    · have only : ∀ op ∈ answering.ops, op.isOutbox = true := by
        rw [← answered]
        exact answering_isOutbox _ _ _ _ fun op member => nomatch member
      obtain ⟨stored, resolved, recovered, enqueued, left⟩ := fresh.db.staged_isOutbox only
      obtain ⟨outcome, done⟩ | ⟨e, lost | done⟩ :=
        Db.transact_cases faults fresh.db answering.ops
      · simp only [done, left]
        exact same.trans ⟨rfl, rfl, rfl, rfl, rfl, rfl, rfl⟩
      · simp only [lost]
        exact same.trans ⟨rfl, rfl, rfl, rfl, rfl, rfl, rfl⟩
      · simp only [done, left]
        exact same.trans ⟨rfl, rfl, rfl, rfl, rfl, rfl, rfl⟩

/-- No call changes what the host registered. -/
theorem Device.call_registered (device : Device) (faults : Faults) (call : ClientCall) :
    (device.call faults call).engine.registry = device.engine.registry ∧
      (device.call faults call).engine.migrations = device.engine.migrations := by
  have refreshed : ∀ scope, (device.refreshIfSuspect faults scope).2.engine.registry =
      device.engine.registry ∧ (device.refreshIfSuspect faults scope).2.engine.migrations =
        device.engine.migrations := by
    intro scope
    obtain ⟨scopes, suspect, same⟩ := device.refreshIfSuspect_eq faults scope
    rw [same]
    exact ⟨rfl, rfl⟩
  have applied : ∀ batch compareDigest rebuilding,
      (device.applyChanges faults batch compareDigest rebuilding).2.engine.registry =
          device.engine.registry ∧
        (device.applyChanges faults batch compareDigest rebuilding).2.engine.migrations =
          device.engine.migrations := by
    intro batch compareDigest rebuilding
    have ends := device.applyChanges_applies faults batch compareDigest rebuilding
    have before := refreshed batch.scope
    generalize (device.refreshIfSuspect faults batch.scope).2 = fresh at ends before
    generalize device.applyChanges faults batch compareDigest rebuilding = outcome at ends ⊢
    cases ends with
    | refused e => exact before
    | committed plan _ plans =>
      obtain ⟨emitted, moved⟩ := Device.advance_eq fresh.engine batch plan
      simp only [moved]
      exact before
    | unacknowledged e plan _ plans => exact before
    | uncommitted e => exact before
  cases call with
  | applyBatch batch => exact applied batch _ _
  | applyBootstrap response => exact applied response.toBatch _ _
  | beginRebootstrap scope =>
    change (device.beginRebootstrap faults scope).2.engine.registry = _ ∧
      (device.beginRebootstrap faults scope).2.engine.migrations = _
    unfold beginRebootstrap
    split <;> exact ⟨rfl, rfl⟩
  | reloadScope scope =>
    have same := device.reloadScope_same faults scope
    exact ⟨same.registry.trans (refreshed scope).1, same.migrations.trans (refreshed scope).2⟩
  | clearScopeHealth scope =>
    have same := device.clearScopeHealth_same faults scope
    exact ⟨same.registry, same.migrations⟩
  | enqueue entry =>
    have same := device.enqueue_same faults entry
    exact ⟨same.registry, same.migrations⟩
  | buildPush compressedLen protocol budgetBytes =>
    have same := device.buildPush_same faults compressedLen protocol budgetBytes
    exact ⟨same.registry, same.migrations⟩
  | applyResults response =>
    have same := device.applyResults_same faults response
    exact ⟨same.registry, same.migrations⟩

/-- Every call keeps memory a mirror of storage, whatever storage did. -/
theorem Device.Mirrors.call (mirrors : device.Mirrors) (faults : Faults) (call : ClientCall) :
    (device.call faults call).Mirrors := by
  cases call with
  | applyBatch batch =>
    exact (mirrors.refresh faults batch.scope).applies
      (device.applyChanges_applies faults batch (!batch.hasMore) false)
  | applyBootstrap response =>
    exact (mirrors.refresh faults response.scope).applies
      (device.applyChanges_applies faults response.toBatch (!response.hasMore) true)
  | beginRebootstrap scope => exact mirrors.beginRebootstrap faults scope
  | reloadScope scope =>
    exact (mirrors.refresh faults scope).frame (device.reloadScope_same faults scope)
  | clearScopeHealth scope => exact mirrors.frame (device.clearScopeHealth_same faults scope)
  | enqueue entry => exact mirrors.frame (device.enqueue_same faults entry)
  | buildPush compressedLen protocol budgetBytes =>
    exact mirrors.frame (device.buildPush_same faults compressedLen protocol budgetBytes)
  | applyResults response => exact mirrors.frame (device.applyResults_same faults response)

end Steps

/-! ### Restarts -/

private theorem restoreScopeHealth_engine (engine : Engine) (scope : ScopeId) (attempts : Nat)
    (healed : Bool) :
    ∃ health, engine.restoreScopeHealth scope attempts healed = { engine with health := health } := by
  unfold Engine.restoreScopeHealth
  split <;> exact ⟨_, rfl⟩

private theorem restoreFrom_engine (db : Db) (engine : Engine) (scope : ScopeId) :
    ∃ scopes health, Device.restoreFrom db engine scope =
      { engine with scopes := scopes, health := health } := by
  unfold Device.restoreFrom
  cases db.stored scope with
  | none =>
    cases db.divergences.lookup scope with
    | none => exact ⟨_, _, rfl⟩
    | some record =>
      obtain ⟨health, restored⟩ := restoreScopeHealth_engine engine scope record.1 record.2
      exact ⟨_, health, restored⟩
  | some stored =>
    cases db.divergences.lookup scope with
    | none => exact ⟨_, _, rfl⟩
    | some record =>
      obtain ⟨health, restored⟩ := restoreScopeHealth_engine
        { engine with scopes := engine.scopes.insert scope stored.restored } scope record.1 record.2
      exact ⟨_, health, restored⟩

private theorem restoreFrom_scopes (db : Db) (engine : Engine) (scope : ScopeId) :
    (Device.restoreFrom db engine scope).scopes =
      match db.stored scope with
      | some stored => engine.scopes.insert scope stored.restored
      | none => engine.scopes := by
  unfold Device.restoreFrom
  cases db.stored scope <;> cases db.divergences.lookup scope <;>
    simp only [Engine.restoreScopeHealth] <;> first | rfl | (split <;> rfl)

/-- What restoring one scope sets, and restoring any other leaves, is set by
restoring all of them. -/
theorem Device.foldl_restoreFrom {Value : Type*} {db : Db} (scope : ScopeId)
    (observe : Engine → Value) (target blank : Value)
    (restored : ∀ engine, observe engine = target ∨ observe engine = blank →
      observe (Device.restoreFrom db engine scope) = target)
    (others : ∀ engine other, other ≠ scope →
      observe (Device.restoreFrom db engine other) = observe engine)
    {scopes : List ScopeId} {engine : Engine}
    (pending : observe engine = target ∨ scope ∈ scopes ∧ observe engine = blank) :
    observe (scopes.foldl (Device.restoreFrom db) engine) = target := by
  induction scopes generalizing engine with
  | nil => exact pending.resolve_right fun left => nomatch left.1
  | cons first rest ih =>
    apply ih
    by_cases here : first = scope
    · subst here
      exact .inl (restored engine (pending.imp_right And.right))
    · rw [others engine first here]
      refine pending.imp_right fun waiting => ⟨?_, waiting.2⟩
      exact (List.mem_cons.mp waiting.1).resolve_left (Ne.symm here)

/-- A restart restores what the host registers and nothing suspect. -/
theorem Device.restart_engine (registry : Registry) (migrations : Migrations)
    (scopes : List ScopeId) (db : Db) :
    ∃ restored health, (Device.restart registry migrations scopes db).engine =
      { registry, migrations, scopes := restored, health := health, outbox := db.outbox } := by
  have folded : ∀ engine : Engine, ∃ restored health,
      scopes.foldl (restoreFrom db) engine =
        { engine with scopes := restored, health := health } := by
    intro engine
    induction scopes generalizing engine with
    | nil => exact ⟨_, _, rfl⟩
    | cons scope rest ih =>
      obtain ⟨restored, health, first⟩ := restoreFrom_engine db engine scope
      obtain ⟨restored', health', others⟩ := ih (restoreFrom db engine scope)
      exact ⟨restored', health', by rw [List.foldl_cons, others, first]⟩
  obtain ⟨restored, health, same⟩ := folded { registry, migrations }
  refine ⟨restored, health, ?_⟩
  rw [restart, same]
  rfl

/-- An engine restored from every stored scope mirrors storage. -/
theorem Device.restart_mirrors (registry : Registry) (migrations : Migrations)
    {scopes : List ScopeId} {db : Db} (complete : ∀ scope, db.stored scope ≠ none → scope ∈ scopes) :
    (Device.restart registry migrations scopes db).Mirrors := by
  intro scope _
  have unsynced : db.stored scope = none → db.position scope = ScopeState.new := by
    intro absent
    rw [Db.position, absent]
    rfl
  change (scopes.foldl (Device.restoreFrom db) { registry, migrations }).scopeStateOr scope =
    db.position scope
  refine Device.foldl_restoreFrom scope (·.scopeStateOr scope) (db.position scope) ScopeState.new
    (fun engine held => ?_) (fun engine other different => ?_) ?_
  · rw [Engine.scopeStateOr, restoreFrom_scopes]
    cases stored : db.stored scope with
    | some stored' => simp [Db.position, stored]
    | none =>
      rw [unsynced stored] at held ⊢
      exact held.elim id id
  · rw [Engine.scopeStateOr, restoreFrom_scopes]
    cases db.stored other with
    | some stored => simp [Engine.scopeStateOr, different.symm]
    | none => rfl
  · by_cases stored : db.stored scope = none
    · exact .inl (unsynced stored).symm
    · exact .inr ⟨complete scope stored, rfl⟩

end CredSync
