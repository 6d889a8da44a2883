import CredSync.Core.Coherence
import CredSync.Library.Parts

/-! Scopes share one row store and one outbox and still do not interfere: each of the
five calls that work on a scope reads and writes that scope's part, and no other. -/

namespace CredSync

/-- The scope that a call works on. -/
def ClientCall.scope : ClientCall → Option ScopeId
  | .applyBatch batch => some batch.scope
  | .applyBootstrap response => some response.scope
  | .beginRebootstrap scope | .reloadScope scope | .clearScopeHealth scope => some scope
  | .enqueue _ | .buildPush .. | .applyResults _ => none

/-- A batch carries only changes of entities registered to its scope. -/
def ClientCall.Owned (registry : Registry) : ClientCall → Prop
  | .applyBatch batch => ∀ change ∈ batch.changes, registry.scopeOf change.entity = some batch.scope
  | .applyBootstrap response =>
      ∀ change ∈ response.changes, registry.scopeOf change.entity = some response.scope
  | _ => True

/-- One of the five calls that work on a scope, and what storage does to it. -/
structure ScopeCall where
  scope : ScopeId
  faults : Faults
  call : ClientCall
  about : call.scope = some scope

/-- The call's transaction commits and says so, and the outbox can be read. -/
def ScopeCall.Commits (call : ScopeCall) : Prop :=
  call.faults.verdict = .commit ∧ call.faults.outbox = none

/-- A scope's part of a device, in storage and in memory. -/
@[ext] structure ScopePart where
  rows : RowKey → Option StoredRow
  cursor : Option Cursor
  digest : Option HexString
  divergence : Option (Nat × Bool)
  state : Option ScopeState
  health : Option ScopeHealth
  suspect : Bool

def Device.part (device : Device) (scope : ScopeId) : ScopePart where
  rows key := if device.engine.registry.scopeOf key.1 = some scope then device.db.rows.lookup key else none
  cursor := device.db.cursors.lookup scope
  digest := device.db.digests.lookup scope
  divergence := device.db.divergences.lookup scope
  state := device.engine.scopes.lookup scope
  health := device.engine.health.lookup scope
  suspect := device.engine.needsReload scope

/-- Everything that is not a scope's is as it was. The outbox in memory may be read again. -/
structure Device.LeavesRest (before : Device) (scope : ScopeId) (after : Device) : Prop where
  rows : ∀ key : RowKey, before.engine.registry.scopeOf key.1 ≠ some scope →
    after.db.rows.lookup key = before.db.rows.lookup key
  cursors : ∀ other ≠ scope, after.db.cursors.lookup other = before.db.cursors.lookup other
  digests : ∀ other ≠ scope, after.db.digests.lookup other = before.db.digests.lookup other
  divergences : ∀ other ≠ scope,
    after.db.divergences.lookup other = before.db.divergences.lookup other
  scopes : ∀ other ≠ scope, after.engine.scopes.lookup other = before.engine.scopes.lookup other
  health : ∀ other ≠ scope, after.engine.health.lookup other = before.engine.health.lookup other
  suspect : ∀ other ≠ scope, after.engine.needsReload other = before.engine.needsReload other
  outbox : after.db.outbox = before.db.outbox
  resolved : after.db.resolved = before.db.resolved
  recovered : after.db.recovered = before.db.recovered
  registry : after.engine.registry = before.engine.registry
  migrations : after.engine.migrations = before.engine.migrations

variable {device before middle after first second : Device} {scope other : ScopeId} {faults : Faults}

theorem Device.LeavesRest.refl (device : Device) (scope : ScopeId) : device.LeavesRest scope device :=
  ⟨fun _ _ => rfl, fun _ _ => rfl, fun _ _ => rfl, fun _ _ => rfl, fun _ _ => rfl, fun _ _ => rfl,
    fun _ _ => rfl, rfl, rfl, rfl, rfl, rfl⟩

theorem Device.LeavesRest.trans (one : before.LeavesRest scope middle) (two : middle.LeavesRest scope after) :
    before.LeavesRest scope after where
  rows key apart := (two.rows key (by rwa [one.registry])).trans (one.rows key apart)
  cursors other apart := (two.cursors other apart).trans (one.cursors other apart)
  digests other apart := (two.digests other apart).trans (one.digests other apart)
  divergences other apart := (two.divergences other apart).trans (one.divergences other apart)
  scopes other apart := (two.scopes other apart).trans (one.scopes other apart)
  health other apart := (two.health other apart).trans (one.health other apart)
  suspect other apart := (two.suspect other apart).trans (one.suspect other apart)
  outbox := two.outbox.trans one.outbox
  resolved := two.resolved.trans one.resolved
  recovered := two.recovered.trans one.recovered
  registry := two.registry.trans one.registry
  migrations := two.migrations.trans one.migrations

theorem Device.LeavesRest.part (keeps : before.LeavesRest scope after) (apart : other ≠ scope) :
    after.part other = before.part other := by
  apply ScopePart.ext
  · funext key
    simp only [Device.part, keeps.registry]
    split
    · rename_i owned
      apply keeps.rows key
      rw [owned]
      exact fun same => apart (Option.some.inj same)
    · rfl
  · exact keeps.cursors other apart
  · exact keeps.digests other apart
  · exact keeps.divergences other apart
  · exact keeps.scopes other apart
  · exact keeps.health other apart
  · exact keeps.suspect other apart

/-! ### Frames -/

theorem Device.refreshIfSuspect_leaves (device : Device) (faults : Faults) (scope : ScopeId) :
    device.LeavesRest scope (device.refreshIfSuspect faults scope).2 := by
  unfold refreshIfSuspect
  split
  · split
    · exact .refl device scope
    · rename_i stored read
      refine { Device.LeavesRest.refl device scope with scopes := ?_, suspect := ?_ }
      · intro other apart
        cases stored with
        | none => exact Finmap.lookup_erase_ne apart
        | some stored => exact Finmap.lookup_insert_of_ne _ apart
      · intro other apart
        simp [Engine.needsReload, apart]
  · exact .refl device scope

theorem Device.distrust_leaves (device : Device) (scope : ScopeId) :
    device.LeavesRest scope ⟨device.engine.distrust scope, device.db⟩ := by
  refine { Device.LeavesRest.refl device scope with suspect := ?_ }
  intro other apart
  simp [Engine.needsReload, Engine.distrust, apart]

theorem Device.cleared_leaves (device : Device) (scope : ScopeId) :
    device.LeavesRest scope
      ⟨device.engine, device.db.staged (device.engine.registry.rebootstrapOps scope)⟩ := by
  refine { Device.LeavesRest.refl device scope with rows := ?_, cursors := ?_, digests := ?_ }
  · intro key apart
    exact (Db.cleared_holding device.db _ scope key).trans (if_neg apart)
  · intro other apart
    rw [Db.cleared_cursors, if_neg apart]
  · intro other apart
    rw [Db.cleared_digests, if_neg apart]

theorem Device.beginRebootstrap_leaves [Hashing] (device : Device) (faults : Faults)
    (scope : ScopeId) : device.LeavesRest scope (device.beginRebootstrap faults scope).2 := by
  have cleared := device.cleared_leaves scope
  unfold beginRebootstrap
  obtain ⟨outcome, done⟩ | ⟨e, lost | done⟩ := Db.transact_cases faults device.db
    (device.engine.registry.rebootstrapOps scope)
  · rw [done]
    apply cleared.trans
    refine { Device.LeavesRest.refl _ scope with scopes := ?_ }
    intro other apart
    exact Finmap.lookup_insert_of_ne _ apart
  · rw [lost]
    exact device.distrust_leaves scope
  · rw [done]
    exact cleared.trans (Device.distrust_leaves ⟨device.engine, _⟩ scope)

theorem Device.reloadScope_leaves (device : Device) (faults : Faults) (scope : ScopeId) :
    device.LeavesRest scope (device.reloadScope faults scope).2 := by
  have refreshed := device.refreshIfSuspect_leaves faults scope
  have outbox : ∀ fresh : Device, fresh.LeavesRest scope (fresh.refreshOutboxIfSuspect faults).2 := by
    intro fresh
    unfold refreshOutboxIfSuspect
    split
    · split <;> exact { Device.LeavesRest.refl fresh scope with }
    · exact .refl fresh scope
  unfold reloadScope
  generalize device.refreshIfSuspect faults scope = outcome at refreshed ⊢
  obtain ⟨_ | _, fresh⟩ := outcome
  · exact refreshed
  · have reread := outbox fresh
    simp only
    generalize fresh.refreshOutboxIfSuspect faults = outcome at reread ⊢
    obtain ⟨_ | _, final⟩ := outcome <;> exact refreshed.trans reread

theorem Device.clearScopeHealth_leaves (device : Device) (faults : Faults) (scope : ScopeId) :
    device.LeavesRest scope (device.clearScopeHealth faults scope).2 := by
  have recorded : device.LeavesRest scope
      ⟨device.engine, device.db.staged [.recordDivergence scope 0 false]⟩ := by
    refine { Device.LeavesRest.refl device scope with divergences := ?_ }
    intro other apart
    exact Finmap.lookup_insert_of_ne _ apart
  unfold clearScopeHealth
  obtain ⟨outcome, done⟩ | ⟨e, lost | done⟩ := Db.transact_cases faults device.db
    [.recordDivergence scope 0 false]
  · rw [done]
    apply recorded.trans
    refine { Device.LeavesRest.refl _ scope with health := ?_ }
    intro other apart
    exact Finmap.lookup_erase_ne apart
  · rw [lost]
    exact .refl device scope
  · rw [done]
    exact recorded

section Applying

variable [Hashing] {batch : Batch} {compareDigest rebuilding : Bool} {plan : Plan}

omit [Hashing] in
theorem Engine.staged_aside (engine : Engine) (db : Db) (changes : List Change) (key : RowKey)
    (absent : ∀ change ∈ changes, change.key ≠ key) :
    (db.staged (changes.map engine.opFor)).rows.lookup key = db.rows.lookup key := by
  change (db.staged (changes.map engine.opFor)).holding key = db.holding key
  rw [engine.holding_staged]
  apply KeyedLog.replay_absent
  intro entry member
  obtain ⟨change, carried, rfl⟩ := List.mem_map.mp member
  exact absent change (List.mem_filter.mp carried).1

theorem Device.Plans.leaves (plans : device.Plans batch compareDigest rebuilding plan)
    (owned : ∀ change ∈ batch.changes,
      device.engine.registry.scopeOf change.entity = some batch.scope) :
    device.LeavesRest batch.scope ⟨device.engine, device.db.staged plan.ops⟩ := by
  obtain ⟨rows, quarantine, only⟩ := device.engine.staged_opFor device.db batch.changes
  have aside : ∀ key : RowKey, device.engine.registry.scopeOf key.1 ≠ some batch.scope →
      rows.lookup key = device.db.rows.lookup key := by
    intro key apart
    have kept := device.engine.staged_aside device.db batch.changes key
      fun change member same => apart (by rw [← same]; exact owned change member)
    rwa [only] at kept
  rw [plans.staged, only]
  refine { Device.LeavesRest.refl device batch.scope with
    rows := aside, cursors := ?_, digests := ?_, divergences := ?_ }
  · intro other apart
    exact Finmap.lookup_insert_of_ne _ apart
  · intro other apart
    exact Finmap.lookup_insert_of_ne _ apart
  · intro other apart
    dsimp only
    split
    · exact Finmap.lookup_insert_of_ne _ apart
    · rfl

theorem Device.advance_leaves (device : Device) (batch : Batch) (plan : Plan) :
    device.LeavesRest batch.scope ⟨advance device.engine batch plan, device.db⟩ := by
  obtain ⟨emitted, moved⟩ := Device.advance_eq device.engine batch plan
  rw [moved]
  refine { Device.LeavesRest.refl device batch.scope with scopes := ?_, health := ?_ }
  · intro other apart
    exact Finmap.lookup_insert_of_ne _ apart
  · intro other apart
    cases plan.record (device.engine.scopeHealth batch.scope).attempts with
    | none => rfl
    | some record => exact Finmap.lookup_insert_of_ne _ apart

theorem Device.applyChanges_leaves (device : Device) (faults : Faults) (batch : Batch)
    (compareDigest rebuilding : Bool)
    (owned : ∀ change ∈ batch.changes,
      device.engine.registry.scopeOf change.entity = some batch.scope) :
    device.LeavesRest batch.scope (device.applyChanges faults batch compareDigest rebuilding).2 := by
  have refreshed := device.refreshIfSuspect_leaves faults batch.scope
  have ends := device.applyChanges_applies faults batch compareDigest rebuilding
  rw [← refreshed.registry] at owned
  apply refreshed.trans
  generalize (device.refreshIfSuspect faults batch.scope).2 = fresh at ends owned
  generalize device.applyChanges faults batch compareDigest rebuilding = outcome at ends
  cases ends with
  | refused e => exact .refl fresh _
  | committed plan trusted plans =>
    exact (plans.leaves owned).trans (Device.advance_leaves ⟨fresh.engine, _⟩ batch plan)
  | unacknowledged e plan trusted plans =>
    exact (plans.leaves owned).trans (Device.distrust_leaves ⟨fresh.engine, _⟩ batch.scope)
  | uncommitted e => exact fresh.distrust_leaves batch.scope

/-- Whatever storage does, a call that works on a scope leaves everything else alone. -/
theorem Device.call_leaves (device : Device) (faults : Faults) {call : ClientCall}
    (about : call.scope = some scope) (owned : call.Owned device.engine.registry) :
    device.LeavesRest scope (device.call faults call) := by
  cases call with
  | applyBatch batch =>
    cases about
    exact device.applyChanges_leaves faults batch _ _ owned
  | applyBootstrap response =>
    cases about
    exact device.applyChanges_leaves faults response.toBatch _ _ owned
  | beginRebootstrap scope =>
    cases about
    exact device.beginRebootstrap_leaves faults scope
  | reloadScope scope =>
    cases about
    exact device.reloadScope_leaves faults scope
  | clearScopeHealth scope =>
    cases about
    exact device.clearScopeHealth_leaves faults scope
  | enqueue | buildPush | applyResults => cases about

end Applying

/-! ### Reads -/

/-- What a transaction makes of a row depends on that row alone. -/
theorem Db.staged_row_congr {db db' : Db} {key : RowKey} (ops : List StorageOp)
    (same : db.rows.lookup key = db'.rows.lookup key) :
    (db.staged ops).rows.lookup key = (db'.staged ops).rows.lookup key := by
  induction ops generalizing db db' with
  | nil => exact same
  | cons op rest ih =>
    rw [Db.staged_cons, Db.staged_cons]
    apply ih
    cases op <;> simp only [Db.apply, Table.lookup_insert_if, Table.lookup_erase_if,
      Table.lookup_retain, same]

/-- What a transaction makes of a scope's records depends on these alone. -/
theorem Db.staged_scope_congr {db db' : Db} {scope : ScopeId} (ops : List StorageOp)
    (cursor : db.cursors.lookup scope = db'.cursors.lookup scope)
    (digest : db.digests.lookup scope = db'.digests.lookup scope)
    (divergence : db.divergences.lookup scope = db'.divergences.lookup scope) :
    (db.staged ops).cursors.lookup scope = (db'.staged ops).cursors.lookup scope ∧
      (db.staged ops).digests.lookup scope = (db'.staged ops).digests.lookup scope ∧
      (db.staged ops).divergences.lookup scope = (db'.staged ops).divergences.lookup scope := by
  induction ops generalizing db db' with
  | nil => exact ⟨cursor, digest, divergence⟩
  | cons op rest ih =>
    rw [Db.staged_cons, Db.staged_cons]
    apply ih <;> cases op <;> simp only [Db.apply, Table.lookup_insert_if, Table.lookup_erase_if,
      cursor, digest, divergence]

/-- Two devices of one app, with the same part for a scope. -/
structure Device.Shares (first : Device) (scope : ScopeId) (second : Device) : Prop where
  registry : first.engine.registry = second.engine.registry
  migrations : first.engine.migrations = second.engine.migrations
  part : first.part scope = second.part scope

namespace Device.Shares

variable (shares : first.Shares scope second)
include shares

theorem row {key : RowKey} (owned : second.engine.registry.scopeOf key.1 = some scope) :
    first.db.rows.lookup key = second.db.rows.lookup key := by
  have rows := congrFun (congrArg ScopePart.rows shares.part) key
  simpa only [Device.part, shares.registry, owned, if_true] using rows

theorem cursor : first.db.cursors.lookup scope = second.db.cursors.lookup scope :=
  congrArg ScopePart.cursor shares.part

theorem digest : first.db.digests.lookup scope = second.db.digests.lookup scope :=
  congrArg ScopePart.digest shares.part

theorem divergence : first.db.divergences.lookup scope = second.db.divergences.lookup scope :=
  congrArg ScopePart.divergence shares.part

theorem state : first.engine.scopes.lookup scope = second.engine.scopes.lookup scope :=
  congrArg ScopePart.state shares.part

theorem health : first.engine.health.lookup scope = second.engine.health.lookup scope :=
  congrArg ScopePart.health shares.part

theorem needsReload : first.engine.needsReload scope = second.engine.needsReload scope :=
  congrArg ScopePart.suspect shares.part

/-- One transaction makes the same of a scope's part on both devices. -/
theorem staged (ops : List StorageOp) :
    Device.Shares ⟨first.engine, first.db.staged ops⟩ scope
      ⟨second.engine, second.db.staged ops⟩ := by
  obtain ⟨cursor, digest, divergence⟩ := Db.staged_scope_congr ops
    shares.cursor shares.digest shares.divergence
  refine ⟨shares.registry, shares.migrations, ?_⟩
  apply ScopePart.ext
  · funext key
    simp only [Device.part, shares.registry]
    split
    · rename_i owned
      exact Db.staged_row_congr ops (shares.row owned)
    · rfl
  · exact cursor
  · exact digest
  · exact divergence
  · exact shares.state
  · exact shares.health
  · exact shares.needsReload

/-- What moves in memory, alike on both devices. -/
theorem moved {engine engine' : Engine} (registry : engine.registry = first.engine.registry)
    (registry' : engine'.registry = second.engine.registry)
    (migrations : engine.migrations = first.engine.migrations)
    (migrations' : engine'.migrations = second.engine.migrations)
    (states : engine.scopes.lookup scope = engine'.scopes.lookup scope)
    (healths : engine.health.lookup scope = engine'.health.lookup scope)
    (reload : engine.needsReload scope = engine'.needsReload scope) :
    Device.Shares ⟨engine, first.db⟩ scope ⟨engine', second.db⟩ := by
  refine ⟨?_, ?_, ?_⟩
  · rw [registry, registry', shares.registry]
  · rw [migrations, migrations', shares.migrations]
  · apply ScopePart.ext
    · have rows := congrArg ScopePart.rows shares.part
      simp only [Device.part] at rows ⊢
      rw [registry, registry', rows]
    · exact shares.cursor
    · exact shares.digest
    · exact shares.divergence
    · exact states
    · exact healths
    · exact reload

theorem refreshIfSuspect (faults : Faults) :
    (first.refreshIfSuspect faults scope).1 = (second.refreshIfSuspect faults scope).1 ∧
      (first.refreshIfSuspect faults scope).2.Shares scope
        (second.refreshIfSuspect faults scope).2 := by
  have suspect : scope ∈ first.engine.suspect ↔ scope ∈ second.engine.suspect :=
    decide_eq_decide.mp shares.needsReload
  have read : first.db.scopeState faults scope = second.db.scopeState faults scope := by
    rw [Db.scopeState, Db.stored, shares.cursor, shares.digest, Db.scopeState, Db.stored]
  unfold Device.refreshIfSuspect
  simp only [suspect, read]
  split
  · split
    · exact ⟨rfl, shares⟩
    · rename_i stored _
      refine ⟨rfl, shares.moved rfl rfl rfl rfl ?_ shares.health ?_⟩
      · cases stored with
        | none => simp only [Finmap.lookup_erase]
        | some stored => simp only [Finmap.lookup_insert]
      · simp [Engine.needsReload]
  · exact ⟨rfl, shares⟩

/-- Both end alike, on devices that share the scope again. -/
theorem refreshes (faults : Faults) : ∃ outcome one two,
    first.refreshIfSuspect faults scope = (outcome, one) ∧
      second.refreshIfSuspect faults scope = (outcome, two) ∧ one.Shares scope two := by
  obtain ⟨answer, fresh⟩ := shares.refreshIfSuspect faults
  refine ⟨(first.refreshIfSuspect faults scope).1, (first.refreshIfSuspect faults scope).2,
    (second.refreshIfSuspect faults scope).2, rfl, ?_, fresh⟩
  rw [answer]

end Device.Shares

/-- The outbox in memory once it has been read again, if it has to be. -/
def Device.settledOutbox (device : Device) : List OutboxEntry :=
  if device.engine.outboxSuspect then device.db.outbox else device.engine.outbox

theorem Device.refreshOutboxIfSuspect_readable (readable : faults.outbox = none) (device : Device) :
    device.refreshOutboxIfSuspect faults = (.ok (), { device with
      engine := { device.engine with outbox := device.settledOutbox, outboxSuspect := false } }) := by
  obtain ⟨engine, db⟩ := device
  unfold refreshOutboxIfSuspect settledOutbox Db.readOutbox
  rw [readable]
  cases marked : engine.outboxSuspect with
  | true => rfl
  | false =>
    simp only [Bool.false_eq_true, if_false]
    rw [← marked]

theorem Device.reloadScope_cases (readable : faults.outbox = none) (device : Device)
    (scope : ScopeId) :
    (∃ e, device.reloadScope faults scope = (.error e, (device.refreshIfSuspect faults scope).2)) ∨
      ∃ fresh, device.refreshIfSuspect faults scope = (.ok (), fresh) ∧
        device.reloadScope faults scope = (.ok (), { fresh with
          engine := { fresh.engine with outbox := fresh.settledOutbox, outboxSuspect := false } }) := by
  unfold reloadScope
  cases device.refreshIfSuspect faults scope with
  | mk outcome fresh =>
  cases outcome with
  | error e => exact .inl ⟨e, rfl⟩
  | ok =>
    right
    simp only [Device.refreshOutboxIfSuspect_readable readable]
    exact ⟨fresh, rfl, rfl⟩

section Calls

variable [Hashing] {batch : Batch} {compareDigest rebuilding : Bool}

theorem Device.Shares.plan (shares : first.Shares batch.scope second) (faults : Faults)
    (owned : ∀ change ∈ batch.changes,
      second.engine.registry.scopeOf change.entity = some batch.scope) :
    first.plan faults batch compareDigest rebuilding =
      second.plan faults batch compareDigest rebuilding := by
  apply Device.plan_congr faults shares.registry shares.migrations
  · intro change member
    exact shares.row (owned change member)
  · rw [Engine.scopeStateOr, shares.state, Engine.scopeStateOr]
  · rw [Engine.scopeHealth, shares.health, Engine.scopeHealth]

theorem Device.Shares.advance (shares : first.Shares batch.scope second) (plan : Plan) :
    Device.Shares ⟨Device.advance first.engine batch plan, first.db⟩ batch.scope
      ⟨Device.advance second.engine batch plan, second.db⟩ := by
  obtain ⟨reports, moved⟩ := Device.advance_alike batch plan
  have health : first.engine.scopeHealth batch.scope = second.engine.scopeHealth batch.scope := by
    rw [Engine.scopeHealth, shares.health, Engine.scopeHealth]
  rw [moved, moved, health]
  refine shares.moved rfl rfl rfl rfl ?_ ?_ ?_
  · simp only [Finmap.lookup_insert]
  · cases plan.record (second.engine.scopeHealth batch.scope).attempts with
    | none => exact shares.health
    | some record => simp only [recordedHealth, Finmap.lookup_insert]
  · exact shares.needsReload

theorem Device.Shares.applyChanges (shares : first.Shares batch.scope second)
    (commits : faults.verdict = .commit)
    (owned : ∀ change ∈ batch.changes,
      second.engine.registry.scopeOf change.entity = some batch.scope) :
    (first.applyChanges faults batch compareDigest rebuilding).1 =
        (second.applyChanges faults batch compareDigest rebuilding).1 ∧
      (first.applyChanges faults batch compareDigest rebuilding).2.Shares batch.scope
        (second.applyChanges faults batch compareDigest rebuilding).2 := by
  obtain ⟨outcome, one, two, refreshed, refreshed', fresh⟩ := shares.refreshes faults
  have kept := (second.refreshIfSuspect_leaves faults batch.scope).registry
  rw [← kept] at owned
  simp only [Device.applyChanges, refreshed, refreshed'] at owned ⊢
  cases outcome with
  | error e => exact ⟨rfl, fresh⟩
  | ok =>
    simp only at fresh owned ⊢
    rw [fresh.plan faults owned]
    cases two.plan faults batch compareDigest rebuilding with
    | error e => exact ⟨rfl, fresh⟩
    | ok plan =>
      simp only [Db.transact, commits]
      exact ⟨trivial, (fresh.staged plan.ops).advance plan⟩

theorem Device.Shares.call (shares : first.Shares scope second) {call : ClientCall}
    (about : call.scope = some scope) (owned : call.Owned second.engine.registry)
    (commits : faults.verdict = .commit) (readable : faults.outbox = none) :
    first.reply faults call = second.reply faults call ∧
      (first.call faults call).Shares scope (second.call faults call) := by
  cases call with
  | applyBatch batch =>
    cases about
    obtain ⟨answer, left⟩ := shares.applyChanges commits owned
    exact ⟨congrArg CallReply.applied answer, left⟩
  | applyBootstrap response =>
    cases about
    have paged : first.Shares response.toBatch.scope second := shares
    obtain ⟨answer, left⟩ := paged.applyChanges commits owned
    exact ⟨congrArg CallReply.applied answer, left⟩
  | beginRebootstrap scope =>
    cases about
    have cleared := shares.staged (second.engine.registry.rebootstrapOps scope)
    simp only [Device.reply, Device.call, Device.beginRebootstrap, Db.transact, commits,
      shares.registry]
    refine ⟨trivial, cleared.moved rfl rfl rfl rfl ?_ shares.health shares.needsReload⟩
    simp only [Engine.restoreScope, Finmap.lookup_insert]
  | reloadScope scope =>
    cases about
    obtain ⟨outcome, one, two, refreshed, refreshed', fresh⟩ := shares.refreshes faults
    simp only [Device.reply, Device.call, Device.reloadScope, refreshed, refreshed']
    cases outcome with
    | error e => exact ⟨rfl, fresh⟩
    | ok =>
      simp only [Device.refreshOutboxIfSuspect_readable readable]
      exact ⟨trivial, fresh.moved rfl rfl rfl rfl fresh.state fresh.health fresh.needsReload⟩
  | clearScopeHealth scope =>
    cases about
    have recorded := shares.staged [.recordDivergence scope 0 false]
    simp only [Device.reply, Device.call, Device.clearScopeHealth, Db.transact, commits]
    refine ⟨trivial, recorded.moved rfl rfl rfl rfl shares.state ?_ shares.needsReload⟩
    simp only [Finmap.lookup_erase]
  | enqueue | buildPush | applyResults => cases about

/-! ### The outbox -/

/-- Whether a call has read the outbox again. -/
def ClientCall.rereads : ClientCall → CallReply → Bool
  | .reloadScope _, .done (.ok ()) => true
  | _, _ => false

/-- The outbox in memory, and whether it is to be read again. -/
def Device.queue (device : Device) : List OutboxEntry × Bool :=
  (device.engine.outbox, device.engine.outboxSuspect)

theorem Device.call_queue (device : Device) {call : ClientCall}
    (about : call.scope = some scope) (commits : faults.verdict = .commit)
    (readable : faults.outbox = none) :
    (device.call faults call).queue =
      if call.rereads (device.reply faults call) then (device.settledOutbox, false)
      else device.queue := by
  have refreshed : ∀ scope, (device.refreshIfSuspect faults scope).2.queue = device.queue ∧
      (device.refreshIfSuspect faults scope).2.settledOutbox = device.settledOutbox := by
    intro scope
    obtain ⟨scopes, suspect, same⟩ := device.refreshIfSuspect_eq faults scope
    rw [same]
    exact ⟨rfl, rfl⟩
  have applied : ∀ batch compareDigest rebuilding,
      (device.applyChanges faults batch compareDigest rebuilding).2.queue = device.queue := by
    intro batch compareDigest rebuilding
    have before := (refreshed batch.scope).1
    unfold Device.applyChanges
    generalize device.refreshIfSuspect faults batch.scope = outcome at before ⊢
    obtain ⟨_ | _, fresh⟩ := outcome
    · exact before
    · simp only at before ⊢
      cases fresh.plan faults batch compareDigest rebuilding with
      | error e => exact before
      | ok plan =>
        obtain ⟨emitted, moved⟩ := Device.advance_eq fresh.engine batch plan
        simp only [Db.transact, commits, moved]
        exact before
  cases call with
  | applyBatch batch => exact applied batch _ _
  | applyBootstrap response => exact applied response.toBatch _ _
  | beginRebootstrap scope =>
    simp only [Device.call, Device.beginRebootstrap, Db.transact, commits]
    rfl
  | reloadScope scope =>
    obtain ⟨before, settled⟩ := refreshed scope
    rcases device.reloadScope_cases readable scope with ⟨e, failed⟩ | ⟨fresh, refresh, done⟩
    · rw [Device.call, Device.reply, failed]
      exact before
    · rw [refresh] at settled
      rw [Device.call, Device.reply, done, ← settled]
      rfl
  | clearScopeHealth scope =>
    simp only [Device.call, Device.clearScopeHealth, Db.transact, commits]
    rfl
  | enqueue | buildPush | applyResults => cases about

/-! ### Any order -/

def Device.serve (device : Device) (call : ScopeCall) : Device :=
  device.call call.faults call.call

def Device.answer (device : Device) (call : ScopeCall) : CallReply :=
  device.reply call.faults call.call

def Device.serveAll (device : Device) (calls : List ScopeCall) : Device :=
  Parts.run Device.serve device calls

/-- Each call with what it returned. -/
def Device.answers (device : Device) (calls : List ScopeCall) : List (ScopeCall × CallReply) :=
  Parts.replies Device.serve Device.answer device calls

/-- A call of an app with these declarations, which carries what its scope owns and whose
storage does as it says. -/
structure ScopeCall.Sound (registry : Registry) (migrations : Migrations) (device : Device)
    (call : ScopeCall) : Prop where
  registered : device.engine.registry = registry
  migrated : device.engine.migrations = migrations
  owned : call.call.Owned registry
  commits : call.Commits

/-- The calls that work on scopes keep to their scopes. -/
theorem scopes_separate (registry : Registry) (migrations : Migrations) :
    Parts.Separate Device.serve Device.answer ScopeCall.scope (fun scope device => device.part scope)
      (ScopeCall.Sound registry migrations) where
  keeps := by
    intro device call later sound sound'
    obtain ⟨registered, migrated⟩ := device.call_registered call.faults call.call
    exact ⟨registered.trans sound.registered, migrated.trans sound.migrated, sound'.owned,
      sound'.commits⟩
  frame := by
    intro device call other sound apart
    have owned := sound.owned
    rw [← sound.registered] at owned
    exact (device.call_leaves call.faults call.about owned).part apart
  reads := by
    intro first call second sound sound' same
    have shares : first.Shares call.scope second :=
      ⟨sound.registered.trans sound'.registered.symm, sound.migrated.trans sound'.migrated.symm, same⟩
    have owned := sound.owned
    rw [← sound'.registered] at owned
    obtain ⟨answer, left⟩ := shares.call call.about owned sound.commits.1 sound.commits.2
    exact ⟨answer, left.part⟩

/-- What belongs to no scope is as it was. -/
structure Device.LeavesShared (before after : Device) : Prop where
  rows : ∀ key : RowKey, before.engine.registry.scopeOf key.1 = none →
    after.db.rows.lookup key = before.db.rows.lookup key
  outbox : after.db.outbox = before.db.outbox
  resolved : after.db.resolved = before.db.resolved
  recovered : after.db.recovered = before.db.recovered
  registry : after.engine.registry = before.engine.registry

variable {registry : Registry} {migrations : Migrations} {calls : List ScopeCall}

theorem Device.serveAll_shared (owned : ∀ call ∈ calls, call.call.Owned device.engine.registry) :
    device.LeavesShared (device.serveAll calls) := by
  induction calls generalizing device with
  | nil => exact ⟨fun _ _ => rfl, rfl, rfl, rfl, rfl⟩
  | cons call rest ih =>
    have keeps := device.call_leaves call.faults call.about (owned call List.mem_cons_self)
    have later : ∀ call' ∈ rest, call'.call.Owned (device.serve call).engine.registry := by
      intro call' member
      rw [Device.serve, keeps.registry]
      exact owned call' (List.mem_cons_of_mem call member)
    have kept := ih later
    refine ⟨?_, kept.outbox.trans keeps.outbox, kept.resolved.trans keeps.resolved,
      kept.recovered.trans keeps.recovered, kept.registry.trans keeps.registry⟩
    intro key unowned
    refine (kept.rows key ?_).trans (keeps.rows key ?_)
    · rw [Device.serve, keeps.registry]
      exact unowned
    · rw [unowned]
      exact (Option.some_ne_none _).symm

theorem Device.serveAll_queue (sound : ∀ call ∈ calls, call.Sound registry migrations device) :
    (device.serveAll calls).queue =
      if (device.answers calls).any fun answered => answered.1.call.rereads answered.2 then
        (device.settledOutbox, false)
      else device.queue := by
  induction calls generalizing device with
  | nil => rfl
  | cons call rest ih =>
    have first := sound call List.mem_cons_self
    have owned := first.owned
    rw [← first.registered] at owned
    have queue := device.call_queue call.about first.commits.1 first.commits.2
    have stored := (device.call_leaves call.faults call.about owned).outbox
    have settled : (device.serve call).settledOutbox = device.settledOutbox := by
      change (if (device.call call.faults call.call).queue.2 then
        (device.call call.faults call.call).db.outbox else
          (device.call call.faults call.call).queue.1) = _
      rw [queue, stored]
      split <;> rfl
    have onward := ih fun later member => (scopes_separate registry migrations).keeps first
      (sound later (List.mem_cons_of_mem call member))
    have served : device.serveAll (call :: rest) = (device.serve call).serveAll rest := rfl
    have answered : device.answers (call :: rest) =
        (call, device.answer call) :: (device.serve call).answers rest := rfl
    rw [served, onward, settled, answered, List.any_cons]
    change (if (Device.answers _ _).any _ then _ else (device.call call.faults call.call).queue) = _
    rw [queue]
    cases reread : call.call.rereads (device.reply call.faults call.call) with
    | true =>
      simp only [Device.answer, reread, Bool.true_or, if_true, ite_self]
    | false =>
      simp only [Device.answer, reread, Bool.false_or, Bool.false_eq_true, if_false]

/-- Two devices that hold the same, in storage and in memory. Rows set aside and reports
come in the order of the calls, and are not compared. -/
structure Device.Agrees (first second : Device) : Prop where
  rows : first.db.rows = second.db.rows
  cursors : first.db.cursors = second.db.cursors
  digests : first.db.digests = second.db.digests
  divergences : first.db.divergences = second.db.divergences
  scopes : first.engine.scopes = second.engine.scopes
  health : first.engine.health = second.engine.health
  suspect : first.engine.suspect = second.engine.suspect
  outbox : first.db.outbox = second.db.outbox
  resolved : first.db.resolved = second.db.resolved
  recovered : first.db.recovered = second.db.recovered
  queue : first.queue = second.queue

/-- Two orders of calls that agree on each scope end the same. -/
theorem Device.serveAll_reorder {calls' : List ScopeCall}
    (sound : ∀ call ∈ calls, call.Sound registry migrations device)
    (sound' : ∀ call ∈ calls', call.Sound registry migrations device)
    (same : ∀ scope, calls.filter (·.scope = scope) = calls'.filter (·.scope = scope)) :
    (device.serveAll calls).Agrees (device.serveAll calls') := by
  obtain ⟨parts, answers⟩ := (scopes_separate registry migrations).reorder sound sound' same
  have owned : ∀ {calls : List ScopeCall}, (∀ call ∈ calls, call.Sound registry migrations device) →
      ∀ call ∈ calls, call.call.Owned device.engine.registry := by
    intro calls sound call member
    rw [(sound call member).registered]
    exact (sound call member).owned
  have shared := Device.serveAll_shared (owned sound)
  have shared' := Device.serveAll_shared (owned sound')
  refine ⟨?_, ?_, ?_, ?_, ?_, ?_, ?_, ?_, ?_, ?_, ?_⟩
  · apply Finmap.ext_lookup
    intro key
    cases found : device.engine.registry.scopeOf key.1 with
    | none => exact (shared.rows key found).trans (shared'.rows key found).symm
    | some scope =>
      have row := congrFun (congrArg ScopePart.rows (parts scope)) key
      change (if (device.serveAll calls).engine.registry.scopeOf key.1 = some scope then _ else _) =
        (if (device.serveAll calls').engine.registry.scopeOf key.1 = some scope then _ else _) at row
      rwa [shared.registry, shared'.registry, if_pos found, if_pos found] at row
  · apply Finmap.ext_lookup
    exact fun scope => congrArg ScopePart.cursor (parts scope)
  · apply Finmap.ext_lookup
    exact fun scope => congrArg ScopePart.digest (parts scope)
  · apply Finmap.ext_lookup
    exact fun scope => congrArg ScopePart.divergence (parts scope)
  · apply Finmap.ext_lookup
    exact fun scope => congrArg ScopePart.state (parts scope)
  · apply Finmap.ext_lookup
    exact fun scope => congrArg ScopePart.health (parts scope)
  · ext scope
    exact decide_eq_decide.mp (congrArg ScopePart.suspect (parts scope))
  · rw [shared.outbox, shared'.outbox]
  · rw [shared.resolved, shared'.resolved]
  · rw [shared.recovered, shared'.recovered]
  · have rereads : (device.answers calls).any (fun answered =>
          answered.1.call.rereads answered.2) =
        (device.answers calls').any fun answered => answered.1.call.rereads answered.2 := by
      rw [Bool.eq_iff_iff, List.any_eq_true, List.any_eq_true]
      exact exists_congr fun answered => and_congr_left fun _ => answers answered
    rw [Device.serveAll_queue sound, Device.serveAll_queue sound', rereads]

/-- The calls that rebuild a scope: emptying it, and applying the pages of its snapshot. -/
def ClientCall.Rebuilds : ClientCall → Prop
  | .beginRebootstrap _ | .applyBootstrap _ => True
  | _ => False

theorem Device.call_rebuilds (device : Device) (faults : Faults) {call : ClientCall}
    (rebuilds : call.Rebuilds) :
    (device.call faults call).engine.outbox = device.engine.outbox := by
  cases call with
  | beginRebootstrap scope =>
    change (device.beginRebootstrap faults scope).2.engine.outbox = _
    unfold beginRebootstrap
    split <;> rfl
  | applyBootstrap response =>
    obtain ⟨scopes, suspect, refreshed⟩ := device.refreshIfSuspect_eq faults response.scope
    have ends := device.applyChanges_applies faults response.toBatch (!response.hasMore) true
    change (device.applyChanges faults response.toBatch _ _).2.engine.outbox = _
    change ((device.refreshIfSuspect faults response.scope).2.Applies _ _ _ _) at ends
    rw [refreshed] at ends
    generalize device.applyChanges faults response.toBatch (!response.hasMore) true = outcome
      at ends ⊢
    cases ends with
    | refused e => rfl
    | committed plan _ plans =>
      obtain ⟨emitted, moved⟩ := Device.advance_eq (Device.engine { device with
        engine := { device.engine with scopes := scopes, suspect := suspect } }) response.toBatch plan
      rw [moved]
    | unacknowledged e plan _ plans => rfl
    | uncommitted e => rfl
  | applyBatch | reloadScope | clearScopeHealth | enqueue | buildPush | applyResults =>
    exact absurd rebuilds id

theorem Device.serveAll_rebuilds (rebuilds : ∀ call ∈ calls, call.scope = scope ∧
      call.call.Rebuilds ∧ call.call.Owned device.engine.registry) :
    device.LeavesRest scope (device.serveAll calls) ∧
      (device.serveAll calls).engine.outbox = device.engine.outbox := by
  induction calls generalizing device with
  | nil => exact ⟨.refl device scope, rfl⟩
  | cons call rest ih =>
    obtain ⟨here, step, owned⟩ := rebuilds call List.mem_cons_self
    have keeps := device.call_leaves call.faults call.about owned
    rw [here] at keeps
    have outbox := device.call_rebuilds call.faults step
    obtain ⟨kept, same⟩ := @ih (device.serve call) fun later member => by
      rw [Device.serve, keeps.registry]
      exact rebuilds later (List.mem_cons_of_mem call member)
    exact ⟨keeps.trans kept, same.trans outbox⟩

/-- Scopes do not interfere. Two calls on two scopes commute: each answers the same before
the other and after it, and both orders leave the same device. However the calls of many
scopes interleave, each scope ends, and is answered, as if its own calls had run alone; and
a rebuild, whatever storage does to it, changes no other scope's part or rows, no outbox
entry, no resolution and no recovered draft. -/
theorem scopes_do_not_interfere (device : Device) :
    (∀ first second : ScopeCall, first.scope ≠ second.scope →
      first.Commits ∧ first.call.Owned device.engine.registry →
      second.Commits ∧ second.call.Owned device.engine.registry →
      (device.serve second).answer first = device.answer first ∧
      (device.serve first).answer second = device.answer second ∧
      ((device.serve first).serve second).Agrees ((device.serve second).serve first)) ∧
    (∀ calls : List ScopeCall,
      (∀ call ∈ calls, call.Commits ∧ call.call.Owned device.engine.registry) → ∀ scope,
      (device.serveAll calls).part scope =
          (device.serveAll (calls.filter (·.scope = scope))).part scope ∧
      (device.answers calls).filter (·.1.scope = scope) =
        device.answers (calls.filter (·.scope = scope))) ∧
    ∀ (scope : ScopeId) (calls : List ScopeCall), (∀ call ∈ calls, call.scope = scope ∧
        call.call.Rebuilds ∧ call.call.Owned device.engine.registry) →
      let after := device.serveAll calls
      (∀ other ≠ scope, after.part other = device.part other) ∧
      (∀ key : RowKey, device.engine.registry.scopeOf key.1 ≠ some scope →
        after.db.rows.lookup key = device.db.rows.lookup key) ∧
      after.db.outbox = device.db.outbox ∧ after.engine.outbox = device.engine.outbox ∧
      after.db.resolved = device.db.resolved ∧ after.db.recovered = device.db.recovered := by
  have sound : ∀ call : ScopeCall, call.Commits ∧ call.call.Owned device.engine.registry →
      call.Sound device.engine.registry device.engine.migrations device :=
    fun call both => ⟨rfl, rfl, both.2, both.1⟩
  have separate := scopes_separate device.engine.registry device.engine.migrations
  refine ⟨?_, ?_, ?_⟩
  · intro first second apart honest honest'
    obtain ⟨answer, answer', -⟩ := separate.commute (sound first honest) (sound second honest') apart
    refine ⟨answer, answer', ?_⟩
    have both : ∀ calls : List ScopeCall, (∀ call ∈ calls, call = first ∨ call = second) →
        ∀ call ∈ calls,
          call.Sound device.engine.registry device.engine.migrations device := by
      intro calls two call member
      rcases two call member with rfl | rfl
      · exact sound call honest
      · exact sound call honest'
    exact Device.serveAll_reorder (both [first, second] (by simp)) (both [second, first] (by simp))
      (by
        intro scope
        by_cases here : first.scope = scope <;> by_cases there : second.scope = scope <;>
          simp [here, there]
        exact absurd (here.trans there.symm) apart)
  · intro calls honest scope
    exact separate.alone (fun call member => sound call (honest call member))
      (fun call member _ => sound call (honest call member)) rfl
  · intro scope calls rebuilds after
    obtain ⟨keeps, outbox⟩ := Device.serveAll_rebuilds rebuilds
    exact ⟨fun other apart => keeps.part apart, keeps.rows, keeps.outbox, outbox, keeps.resolved,
      keeps.recovered⟩

end Calls

namespace Sample

attribute [local instance] noteHashes

/-- Another scope, beside the one of the notes. -/
def tags : ScopeId := ⟨ascii "tags", by decide⟩

/-- A batch of notes commutes with the start of a rebuild of the tags. -/
theorem notesAndTags_commute :
    let fresh := Device.restart notes Migrations.new [Sample.scope, tags] {}
    let batch : ScopeCall := ⟨Sample.scope, .none, .applyBatch firstNote, rfl⟩
    let rebuild : ScopeCall := ⟨tags, .none, .beginRebootstrap tags, rfl⟩
    ((fresh.serve batch).serve rebuild).Agrees ((fresh.serve rebuild).serve batch) ∧
      (fresh.answer batch).isOk = true ∧
      (fresh.serve rebuild).answer batch = fresh.answer batch := by
  intro fresh batch rebuild
  have owned : batch.call.Owned fresh.engine.registry := by
    intro change member
    rw [List.mem_singleton.mp member]
    rfl
  obtain ⟨answer, -, agrees⟩ := (scopes_do_not_interfere fresh).1 batch rebuild (by decide)
    ⟨⟨rfl, rfl⟩, owned⟩ ⟨⟨rfl, rfl⟩, trivial⟩
  exact ⟨agrees, rfl, answer⟩

end Sample

end CredSync
