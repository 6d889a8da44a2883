import CredSync.Core.Health

/-! Crashes. A process that is killed just before or just after a transaction commits
and started again from storage is, to its host and to storage, the process that was
never killed and did exactly what was committed. -/

namespace CredSync

/-- Nothing in memory is in doubt and no upgrade is forced. -/
structure Device.Calm (device : Device) : Prop where
  scopes : device.engine.suspect = ∅
  outbox : device.engine.outboxSuspect = false
  pushes : device.engine.upgradeRequired = none

/-- Memory is what storage would restore, under one registration. -/
structure Device.Settled (registry : Registry) (migrations : Migrations) (device : Device) :
    Prop where
  registry : device.engine.registry = registry
  migrations : device.engine.migrations = migrations
  calm : device.Calm
  positions : device.Mirrors
  queue : device.Queues
  health : device.HealthMirrors

/-- The process is killed while its transaction is open. -/
def Faults.killedBefore : Faults := { verdict := .failBeforeCommit }

/-- The process is killed before it learns that its transaction committed. -/
def Faults.killedAfter : Faults := { verdict := .commitThenLoseAck }

/-- One operation of a process that may be killed on either side of its commit. -/
inductive Life where
  | lived (call : ClientCall)
  | killedBefore (call : ClientCall) (scopes : List ScopeId)
  | killedAfter (call : ClientCall) (scopes : List ScopeId)

/-- What a process that is never killed does instead. -/
def Life.kept : Life → Option ClientCall
  | .lived call | .killedAfter call _ => some call
  | .killedBefore .. => none

/-- One operation, and the restart after a kill: from what storage was left with, with
the same registration, for every scope that storage knows. -/
inductive Device.Lives [Hashing] (before : Device) : Life → Device → Prop where
  | lived (call : ClientCall) : Lives before (.lived call) (before.call .none call)
  | killedBefore (call : ClientCall) (scopes : List ScopeId)
      (listed : (before.call .killedBefore call).db.Lists scopes) :
      Lives before (.killedBefore call scopes)
        (Device.restart before.engine.registry before.engine.migrations scopes
          (before.call .killedBefore call).db)
  | killedAfter (call : ClientCall) (scopes : List ScopeId)
      (listed : (before.call .killedAfter call).db.Lists scopes) :
      Lives before (.killedAfter call scopes)
        (Device.restart before.engine.registry before.engine.migrations scopes
          (before.call .killedAfter call).db)

variable {device first second : Device} {registry : Registry} {migrations : Migrations}

theorem Device.Calm.refresh (calm : device.Calm) (faults : Faults) (scope : ScopeId) :
    device.refreshIfSuspect faults scope = (.ok (), device) := by
  unfold refreshIfSuspect
  simp [calm.scopes]

theorem Device.Calm.refreshOutbox (calm : device.Calm) (faults : Faults) :
    device.refreshOutboxIfSuspect faults = (.ok (), device) := by
  unfold refreshOutboxIfSuspect
  simp [calm.outbox]

section Calls

variable [Hashing]

/-! ### Memory that agrees answers alike -/

theorem Device.Calm.applyChanges (calm : device.Calm) (batch : Batch)
    (compareDigest rebuilding : Bool) :
    (device.applyChanges .none batch compareDigest rebuilding).2.Calm := by
  have trusted : batch.scope ∉ device.engine.suspect := by simp [calm.scopes]
  rw [device.applyChanges_honest trusted]
  cases device.plan .none batch compareDigest rebuilding with
  | error e => exact calm
  | ok plan =>
    obtain ⟨emitted, moved⟩ := Device.advance_eq device.engine batch plan
    simp only [moved]
    exact ⟨calm.scopes, calm.outbox, calm.pushes⟩

/-- Storage that commits leaves nothing in doubt. -/
theorem Device.Calm.call (calm : device.Calm) (call : ClientCall) :
    (device.call .none call).Calm := by
  cases call with
  | applyBatch batch => exact calm.applyChanges batch _ _
  | applyBootstrap response => exact calm.applyChanges response.toBatch _ _
  | beginRebootstrap scope => exact ⟨calm.scopes, calm.outbox, calm.pushes⟩
  | reloadScope scope =>
    change (device.reloadScope .none scope).2.Calm
    unfold reloadScope
    simp only [calm.refresh, calm.refreshOutbox]
    exact calm
  | clearScopeHealth scope => exact ⟨calm.scopes, calm.outbox, calm.pushes⟩
  | enqueue entry =>
    change (device.enqueue .none entry).2.Calm
    unfold enqueue
    cases device.engine.registry.checkCommand entry.command with
    | error e => exact calm
    | ok entity => exact ⟨calm.scopes, calm.outbox, calm.pushes⟩
  | buildPush compressedLen protocol budgetBytes =>
    change (device.buildPush .none compressedLen protocol budgetBytes).2.Calm
    unfold buildPush
    simp only [calm.refreshOutbox]
    split
    · exact calm
    · split
      · exact calm
      · obtain ⟨effects, emitted⟩ := foldl_held (fillPush device.engine.registry
          device.engine.migrations compressedLen budgetBytes device.engine.outbox {}).held
          device.engine
        simp only [emitted]
        exact ⟨calm.scopes, calm.outbox, calm.pushes⟩
  | applyResults response =>
    change (device.applyResults .none response).2.Calm
    unfold applyResults
    simp only [calm.refreshOutbox]
    split
    · exact calm
    · exact ⟨calm.scopes, calm.outbox, calm.pushes⟩

theorem Device.Settled.call (settled : device.Settled registry migrations) (call : ClientCall) :
    (device.call .none call).Settled registry migrations where
  registry := (device.call_registered .none call).1.trans settled.registry
  migrations := (device.call_registered .none call).2.trans settled.migrations
  calm := settled.calm.call call
  positions := settled.positions.call .none call
  queue := (Device.call_moves settled.queue .none call).2
  health := (device.call_health .none call).mirrors (fun lost => nomatch lost.1) settled.health

/-- Two devices that storage cannot tell apart return the same and store the same. -/
theorem Device.Settled.alike (settled : first.Settled registry migrations)
    (settled' : second.Settled registry migrations) (db : first.db = second.db)
    (call : ClientCall) :
    first.reply .none call = second.reply .none call ∧
      (first.call .none call).db = (second.call .none call).db := by
  have sameRegistry := settled.registry.trans settled'.registry.symm
  have sameMigrations := settled.migrations.trans settled'.migrations.symm
  have sameOutbox : first.engine.outbox = second.engine.outbox := by
    rw [settled.queue settled.calm.outbox, settled'.queue settled'.calm.outbox, db]
  have applied : ∀ batch compareDigest rebuilding,
      (first.applyChanges .none batch compareDigest rebuilding).1 =
          (second.applyChanges .none batch compareDigest rebuilding).1 ∧
        (first.applyChanges .none batch compareDigest rebuilding).2.db =
          (second.applyChanges .none batch compareDigest rebuilding).2.db := by
    intro batch compareDigest rebuilding
    have trusted : batch.scope ∉ first.engine.suspect := by simp [settled.calm.scopes]
    have trusted' : batch.scope ∉ second.engine.suspect := by simp [settled'.calm.scopes]
    have planned : first.plan .none batch compareDigest rebuilding =
        second.plan .none batch compareDigest rebuilding := by
      apply Device.plan_congr .none sameRegistry sameMigrations (fun _ _ => by rw [db])
      · rw [settled.positions _ trusted, settled'.positions _ trusted', db]
      · rw [settled.health, settled'.health, db]
    rw [first.applyChanges_honest trusted, second.applyChanges_honest trusted', planned]
    cases second.plan .none batch compareDigest rebuilding with
    | error e => exact ⟨rfl, db⟩
    | ok plan => exact ⟨rfl, congrArg (Db.staged · plan.ops) db⟩
  cases call with
  | applyBatch batch =>
    obtain ⟨same, left⟩ := applied batch (!batch.hasMore) false
    exact ⟨congrArg CallReply.applied same, left⟩
  | applyBootstrap response =>
    obtain ⟨same, left⟩ := applied response.toBatch (!response.hasMore) true
    exact ⟨congrArg CallReply.applied same, left⟩
  | beginRebootstrap scope =>
    refine ⟨rfl, ?_⟩
    change first.db.staged (first.engine.registry.rebootstrapOps scope) = second.db.staged _
    rw [sameRegistry, db]
  | reloadScope scope =>
    simp only [Device.reply, Device.call, Device.reloadScope, settled.calm.refresh,
      settled'.calm.refresh, settled.calm.refreshOutbox, settled'.calm.refreshOutbox, db,
      and_self]
  | clearScopeHealth scope =>
    refine ⟨rfl, ?_⟩
    change first.db.staged [.recordDivergence scope 0 false] = second.db.staged _
    rw [db]
  | enqueue entry =>
    simp only [Device.reply, Device.call, Device.enqueue, sameRegistry, db]
    cases second.engine.registry.checkCommand entry.command with
    | error e => exact ⟨rfl, db⟩
    | ok entity => exact ⟨rfl, rfl⟩
  | buildPush compressedLen protocol budgetBytes =>
    simp only [Device.reply, Device.call, Device.buildPush, settled.calm.refreshOutbox,
      settled'.calm.refreshOutbox, settled.calm.pushes, settled'.calm.pushes, sameRegistry,
      sameMigrations, sameOutbox]
    split
    · exact ⟨rfl, db⟩
    · split
      · exact ⟨rfl, db⟩
      · exact ⟨rfl, db⟩
  | applyResults response =>
    simp only [Device.reply, Device.call, Device.applyResults, settled.calm.refreshOutbox,
      settled'.calm.refreshOutbox, sameRegistry, sameOutbox, db]
    split
    · exact ⟨rfl, db⟩
    · exact ⟨rfl, rfl⟩

/-! ### What a kill leaves in storage -/

/-- An operation that is killed before its commit leaves storage as it was. -/
theorem Device.Calm.killedBefore (calm : device.Calm) (call : ClientCall) :
    (device.call .killedBefore call).db = device.db := by
  have applied : ∀ batch compareDigest rebuilding,
      (device.applyChanges .killedBefore batch compareDigest rebuilding).2.db = device.db := by
    intro batch compareDigest rebuilding
    unfold Device.applyChanges
    simp only [calm.refresh]
    cases device.plan .killedBefore batch compareDigest rebuilding with
    | error e => rfl
    | ok plan => rfl
  cases call with
  | applyBatch batch => exact applied batch _ _
  | applyBootstrap response => exact applied response.toBatch _ _
  | beginRebootstrap scope | clearScopeHealth scope => rfl
  | reloadScope scope =>
    simp only [Device.call, Device.reloadScope, calm.refresh, calm.refreshOutbox]
  | enqueue entry =>
    simp only [Device.call, Device.enqueue]
    cases device.engine.registry.checkCommand entry.command with
    | error e => rfl
    | ok entity => rfl
  | buildPush compressedLen protocol budgetBytes =>
    simp only [Device.call, Device.buildPush, calm.refreshOutbox]
    split
    · rfl
    · split <;> rfl
  | applyResults response =>
    simp only [Device.call, Device.applyResults, calm.refreshOutbox]
    split <;> rfl

/-- An operation that is killed after its commit leaves storage as it should be. -/
theorem Device.Calm.killedAfter (calm : device.Calm) (call : ClientCall) :
    (device.call .killedAfter call).db = (device.call .none call).db := by
  have applied : ∀ batch compareDigest rebuilding,
      (device.applyChanges .killedAfter batch compareDigest rebuilding).2.db =
        (device.applyChanges .none batch compareDigest rebuilding).2.db := by
    intro batch compareDigest rebuilding
    have planned : device.plan .killedAfter batch compareDigest rebuilding =
        device.plan .none batch compareDigest rebuilding := rfl
    unfold Device.applyChanges
    simp only [calm.refresh, planned]
    cases device.plan .none batch compareDigest rebuilding with
    | error e => rfl
    | ok plan => rfl
  cases call with
  | applyBatch batch => exact applied batch _ _
  | applyBootstrap response => exact applied response.toBatch _ _
  | beginRebootstrap scope | clearScopeHealth scope => rfl
  | reloadScope scope =>
    simp only [Device.call, Device.reloadScope, calm.refresh, calm.refreshOutbox]
  | enqueue entry =>
    simp only [Device.call, Device.enqueue]
    cases device.engine.registry.checkCommand entry.command with
    | error e => rfl
    | ok entity => rfl
  | buildPush compressedLen protocol budgetBytes =>
    simp only [Device.call, Device.buildPush, calm.refreshOutbox]
  | applyResults response =>
    simp only [Device.call, Device.applyResults, calm.refreshOutbox]
    split <;> rfl

end Calls

section Runs

variable [Hashing]

omit [Hashing] in
theorem Device.restart_settled (registry : Registry) (migrations : Migrations)
    {scopes : List ScopeId} {db : Db} (listed : db.Lists scopes) :
    (Device.restart registry migrations scopes db).Settled registry migrations := by
  obtain ⟨restored, health, engine⟩ := Device.restart_engine registry migrations scopes db
  constructor
  · rw [engine]
  · rw [engine]
  · constructor <;> rw [engine]
  · exact Device.restart_mirrors registry migrations listed.stored
  · intro _
    change (Device.restart registry migrations scopes db).engine.outbox = db.outbox
    rw [engine]
  · exact Device.restart_health registry migrations listed

/-- One operation keeps a process that may be killed beside one that is not. -/
theorem Device.Lives.beside {crashed steady after : Device} {life : Life}
    (lives : crashed.Lives life after) (settled : crashed.Settled registry migrations)
    (settled' : steady.Settled registry migrations) (db : crashed.db = steady.db) :
    let next := life.kept.elim steady (steady.call .none)
    after.Settled registry migrations ∧ next.Settled registry migrations ∧ after.db = next.db := by
  cases lives with
  | lived call => exact ⟨settled.call call, settled'.call call, (settled.alike settled' db call).2⟩
  | killedBefore call scopes listed =>
    have same := (settled.calm.killedBefore call).trans db
    rw [settled.registry, settled.migrations]
    exact ⟨Device.restart_settled registry migrations listed, settled', same⟩
  | killedAfter call scopes listed =>
    have same := (settled.calm.killedAfter call).trans (settled.alike settled' db call).2
    rw [settled.registry, settled.migrations]
    exact ⟨Device.restart_settled registry migrations listed, settled'.call call, same⟩

/-- The calls of a process that is never killed. -/
def Device.steadily (device : Device) (calls : List ClientCall) : Device :=
  calls.foldl (fun device call => device.call .none call) device

theorem Device.run_beside {crashed steady after : Device} {lives : List Life}
    (run : Transition.Run Device.Lives crashed lives after)
    (settled : crashed.Settled registry migrations)
    (settled' : steady.Settled registry migrations) (db : crashed.db = steady.db) :
    after.Settled registry migrations ∧
      (steady.steadily (lives.filterMap Life.kept)).Settled registry migrations ∧
      after.db = (steady.steadily (lives.filterMap Life.kept)).db := by
  induction run generalizing steady with
  | done => exact ⟨settled, settled', db⟩
  | @next _ life _ _ _ taken _ ih =>
    obtain ⟨one, other, same⟩ := taken.beside settled settled' db
    have further := ih one other same
    cases life <;> exact further

/-- Kills are transparent: after any run of operations, some of them killed just before
or just after their commit and followed by a restart, every next operation returns what
it returns, and stores what it stores, after the run without kills in which those killed
before their commit are left out. -/
theorem crashes_are_transparent (registry : Registry) (migrations : Migrations)
    (scopes : List ScopeId) (db : Db) (lives : List Life) (crashed : Device) (call : ClientCall)
    (listed : db.Lists scopes)
    (run : Transition.Run Device.Lives (Device.restart registry migrations scopes db) lives
      crashed) :
    let steady := (Device.restart registry migrations scopes db).steadily
      (lives.filterMap Life.kept)
    crashed.db = steady.db ∧ crashed.reply .none call = steady.reply .none call ∧
      (crashed.call .none call).db = (steady.call .none call).db := by
  have start := Device.restart_settled registry migrations listed
  obtain ⟨settled, settled', same⟩ := Device.run_beside run start start rfl
  exact ⟨same, settled.alike settled' same call⟩

end Runs

namespace Sample

attribute [local instance] noteHashes

/-- The first note is stored and the process killed; the next is lost to a kill, and
pulled again. -/
def twiceKilled : List Life :=
  [.killedAfter (.applyBatch firstNote) [scope], .killedBefore (.applyBatch wrongNote) [scope],
    .lived (.applyBatch wrongNote)]

theorem twiceKilled_transparent : ∃ crashed,
    Transition.Run Device.Lives (Device.restart notes Migrations.new [scope] {}) twiceKilled
      crashed ∧
    crashed.reply .none (.applyBatch firstNote) =
      ((Device.restart notes Migrations.new [scope] {}).steadily
        [.applyBatch firstNote, .applyBatch wrongNote]).reply .none (.applyBatch firstNote) := by
  have run : Transition.Run Device.Lives (Device.restart notes Migrations.new [scope] {})
      twiceKilled _ :=
    .next (.killedAfter _ _ (by decide +kernel))
      (.next (.killedBefore _ _ (by decide +kernel)) (.next (.lived _) .done))
  exact ⟨_, run, (crashes_are_transparent notes Migrations.new [scope] {} twiceKilled _
    (.applyBatch firstNote) ⟨by decide, by decide⟩ run).2.1⟩

end Sample

end CredSync
