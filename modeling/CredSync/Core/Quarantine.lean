import CredSync.Core.Acceptance
import CredSync.Core.Coherence

/-! Two engines fed the same batches, where one can migrate what the other sets
aside. A row that was set aside has no version in storage, so the two agree for as
long as the rows a batch changes are at the same version in both. -/

namespace CredSync

section Staging

variable [Hashing]

/-- Over honest storage every ordered batch of mutable entities is planned. -/
theorem Device.plan_honest (device : Device) {batch : Batch}
    (ordered : batch.Ordered (device.engine.scopeStateOr batch.scope).cursor.get)
    (mutable : ∀ change ∈ batch.changes,
      device.engine.registry.classOf change.entity ≠ some .appendOnly)
    (compareDigest rebuilding : Bool) :
    ∃ plan, device.plan .none batch compareDigest rebuilding = .ok plan := by
  refine (device.plan_ok_iff batch compareDigest rebuilding).mpr ⟨ordered, ?_⟩
  apply AppendsOnly.of_mutable
  intro change member
  unfold Engine.guard
  split
  · exact mutable change member
  · simp

end Staging

section Twins

variable [Hashing]

/-- Two engines are fed one batch, each over its own honest storage. -/
def Device.Fed (before : Device × Device) (batch : Batch) (after : Device × Device) : Prop :=
  after = ((before.1.applyBatch .none batch).2, (before.2.applyBatch .none batch).2)

/-- Whether a row a batch changes is at the same version in both storages, unless
the batch is refused for its order. -/
def Device.SameVersions (pair : Device × Device) (batch : Batch) : Prop :=
  (validateOrdering batch (pair.1.engine.scopeStateOr batch.scope).cursor.get).isOk = true →
    ∀ change ∈ batch.changes, pair.1.db.version change.key = pair.2.db.version change.key

/-- Neither engine knows an entity of a batch as append-only. -/
def Device.Mutable (pair : Device × Device) (batch : Batch) : Prop :=
  ∀ change ∈ batch.changes, pair.1.engine.registry.classOf change.entity ≠ some .appendOnly ∧
    pair.2.engine.registry.classOf change.entity ≠ some .appendOnly

instance (pair : Device × Device) : DecidablePred (Device.SameVersions pair) := fun batch =>
  inferInstanceAs (Decidable
    ((validateOrdering batch (pair.1.engine.scopeStateOr batch.scope).cursor.get).isOk = true →
      ∀ change ∈ batch.changes, pair.1.db.version change.key = pair.2.db.version change.key))

instance (pair : Device × Device) : DecidablePred (Device.Mutable pair) := fun batch =>
  inferInstanceAs (Decidable (∀ change ∈ batch.changes,
    pair.1.engine.registry.classOf change.entity ≠ some .appendOnly ∧
      pair.2.engine.registry.classOf change.entity ≠ some .appendOnly))

/-- Everything two engines have in common but what they migrate. -/
structure Device.Alike (left right : Device) : Prop where
  scopes : left.engine.scopes = right.engine.scopes
  health : left.engine.health = right.engine.health
  trusted : left.engine.suspect = ∅ ∧ right.engine.suspect = ∅
  cursors : left.db.cursors = right.db.cursors
  digests : left.db.digests = right.db.digests
  divergences : left.db.divergences = right.db.divergences

namespace Device.Alike

variable {left right : Device} {batch : Batch} {plan plan' : Plan} (alike : left.Alike right)
include alike

omit [Hashing] in
theorem scopeStateOr (scope : ScopeId) :
    left.engine.scopeStateOr scope = right.engine.scopeStateOr scope := by
  rw [Engine.scopeStateOr, Engine.scopeStateOr, alike.scopes]

omit [Hashing] in
theorem scopeHealth (scope : ScopeId) :
    left.engine.scopeHealth scope = right.engine.scopeHealth scope := by
  rw [Engine.scopeHealth, Engine.scopeHealth, alike.health]

/-- From the same versions both plans reach the same digest. -/
theorem digest (same : ∀ change ∈ batch.changes,
      left.db.version change.key = right.db.version change.key)
    (plans : left.Plans batch compareDigest rebuilding plan)
    (plans' : right.Plans batch compareDigest rebuilding plan') : plan.digest = plan'.digest := by
  let keys : Finset RowKey := (batch.changes.map Change.key).toFinset
  have covers : ∀ change ∈ batch.changes, change.key ∈ keys := fun change member =>
    List.mem_toFinset.mpr (List.mem_map_of_mem member)
  have versions : ∀ key ∈ keys, left.db.version key = right.db.version key := by
    intro key inside
    obtain ⟨change, member, rfl⟩ := List.mem_map.mp (List.mem_toFinset.mp inside)
    exact same change member
  have before : KeyedLog.weigh versionHash keys left.db.version =
      KeyedLog.weigh versionHash keys right.db.version :=
    KeyedLog.weigh_congr versionHash keys versions
  have after : KeyedLog.weigh versionHash keys
        (KeyedLog.replay left.db.version (batch.changes.map Change.entry)) =
      KeyedLog.weigh versionHash keys
        (KeyedLog.replay right.db.version (batch.changes.map Change.entry)) :=
    KeyedLog.weigh_congr versionHash keys fun key inside => KeyedLog.replay_at (versions key inside)
  have balance := plans.balance keys covers
  have balance' := plans'.balance keys covers
  rw [before, after, alike.scopeStateOr] at balance
  have raw : plan.digest.raw = plan'.digest.raw := sub_left_injective (balance.trans balance'.symm)
  exact congrArg ScopeDigest.mk raw

/-- Plans with one digest judge it alike. -/
theorem judged (digest : plan.digest = plan'.digest)
    (plans : left.Plans batch compareDigest rebuilding plan)
    (plans' : right.Plans batch compareDigest rebuilding plan') :
    plan.diverged = plan'.diverged ∧
      plan.record (left.engine.scopeHealth batch.scope).attempts =
        plan'.record (right.engine.scopeHealth batch.scope).attempts := by
  have diverged : plan.diverged = plan'.diverged := by rw [plans.diverged, plans'.diverged, digest]
  have escalated : plan.escalated = plan'.escalated := by
    rw [plans.escalated, plans'.escalated, diverged, alike.scopeHealth]
  have heals : plan.heals = plan'.heals := by
    rw [plans.heals, plans'.heals, diverged, alike.scopeHealth]
  exact ⟨diverged, by rw [Plan.record, Plan.record, escalated, heals, alike.scopeHealth]⟩

private theorem committed (digest : plan.digest = plan'.digest)
    (plans : left.Plans batch compareDigest rebuilding plan)
    (plans' : right.Plans batch compareDigest rebuilding plan') :
    Device.Alike ⟨advance left.engine batch plan, left.db.staged plan.ops⟩
      ⟨advance right.engine batch plan', right.db.staged plan'.ops⟩ := by
  obtain ⟨_, record⟩ := alike.judged digest plans plans'
  obtain ⟨emitted, moved⟩ := advance_eq left.engine batch plan
  obtain ⟨emitted', moved'⟩ := advance_eq right.engine batch plan'
  obtain ⟨rows, quarantine, only⟩ := left.engine.staged_opFor left.db batch.changes
  obtain ⟨rows', quarantine', only'⟩ := right.engine.staged_opFor right.db batch.changes
  rw [moved, moved', plans.staged, plans'.staged, only, only', record, digest]
  exact ⟨by simp only [alike.scopes], by simp only [alike.health], alike.trusted,
    by simp only [alike.cursors], by simp only [alike.digests], by simp only [alike.divergences]⟩

/-- Fed a batch whose rows are at the same versions, both answer alike and stay alike. -/
theorem fed (mutable : Device.Mutable (left, right) batch)
    (same : Device.SameVersions (left, right) batch) :
    (left.applyBatch .none batch).1 = (right.applyBatch .none batch).1 ∧
      (left.applyBatch .none batch).2.Alike (right.applyBatch .none batch).2 := by
  have free : ∀ device : Device, device.engine.suspect = ∅ → batch.scope ∉ device.engine.suspect := by
    intro device trusted
    rw [trusted]
    exact Finset.notMem_empty _
  unfold applyBatch
  rw [left.applyChanges_honest (free left alike.trusted.1),
    right.applyChanges_honest (free right alike.trusted.2)]
  cases checked : validateOrdering batch (left.engine.scopeStateOr batch.scope).cursor.get with
  | error e =>
    have refused : ∀ device : Device, device.engine.scopeStateOr batch.scope =
        left.engine.scopeStateOr batch.scope →
        device.plan .none batch (!batch.hasMore) false = .error e := by
      intro device state
      unfold plan
      simp only [state, checked]
    rw [refused left rfl, refused right (alike.scopeStateOr _).symm]
    exact ⟨rfl, alike⟩
  | ok =>
    have ordered := (validateOrdering_ok_iff _ _).mp checked
    obtain ⟨plan, planned⟩ := left.plan_honest ordered (fun change member => (mutable change member).1)
      (!batch.hasMore) false
    rw [alike.scopeStateOr] at ordered
    obtain ⟨plan', planned'⟩ := right.plan_honest ordered
      (fun change member => (mutable change member).2) (!batch.hasMore) false
    have plans := left.plan_plans planned
    have plans' := right.plan_plans planned'
    have versions := same (by rw [checked]; rfl)
    have digest := alike.digest versions plans plans'
    rw [planned, planned']
    refine ⟨?_, alike.committed digest plans plans'⟩
    simp only [(alike.judged digest plans plans').1]

end Device.Alike

omit [Hashing] in
/-- A restart restores the same positions and health whatever the host registers. -/
theorem Device.restart_alike (registry registry' : Registry) (migrations migrations' : Migrations)
    (scopes : List ScopeId) (db : Db) :
    (restart registry migrations scopes db).Alike (restart registry' migrations' scopes db) := by
  have one : ∀ (engine engine' : Engine) scope, engine.scopes = engine'.scopes →
      engine.health = engine'.health →
      (restoreFrom db engine scope).scopes = (restoreFrom db engine' scope).scopes ∧
        (restoreFrom db engine scope).health = (restoreFrom db engine' scope).health := by
    intro engine engine' scope scopes health
    unfold restoreFrom
    cases db.stored scope <;> cases db.divergences.lookup scope <;>
      simp only [Engine.restoreScope, Engine.restoreScopeHealth] <;> (try split) <;>
      simp [scopes, health]
  have all : ∀ (engine engine' : Engine), engine.scopes = engine'.scopes →
      engine.health = engine'.health →
      (scopes.foldl (restoreFrom db) engine).scopes = (scopes.foldl (restoreFrom db) engine').scopes ∧
        (scopes.foldl (restoreFrom db) engine).health =
          (scopes.foldl (restoreFrom db) engine').health := by
    induction scopes with
    | nil => exact fun _ _ scopes health => ⟨scopes, health⟩
    | cons scope rest ih =>
      intro engine engine' scopes health
      obtain ⟨scopes, health⟩ := one engine engine' scope scopes health
      exact ih _ _ scopes health
  obtain ⟨restored, health⟩ := all { registry, migrations }
    { registry := registry', migrations := migrations' } rfl rfl
  obtain ⟨_, _, started⟩ := restart_engine registry migrations scopes db
  obtain ⟨_, _, started'⟩ := restart_engine registry' migrations' scopes db
  exact ⟨restored, health, ⟨by rw [started], by rw [started']⟩, rfl, rfl, rfl⟩

/-- Setting rows aside is invisible to the digest while each row a batch changes is
at the same version in both storages: two engines that differ in what they can
migrate then stay at the same cursor, digest and verdict, batch after batch. -/
theorem quarantine_is_invisible (registry registry' : Registry)
    (migrations migrations' : Migrations) (scopes : List ScopeId) (db : Db) (batches : List Batch)
    (left right : Device)
    (run : Transition.Run
      (Transition.Guarded Device.Fed fun pair batch =>
        Device.Mutable pair batch ∧ Device.SameVersions pair batch)
      (Device.restart registry migrations scopes db, Device.restart registry' migrations' scopes db)
      batches (left, right)) :
    (∀ scope, left.db.storedCursor scope = right.db.storedCursor scope ∧
      left.db.storedDigest scope = right.db.storedDigest scope ∧
      left.engine.scopeHealth scope = right.engine.scopeHealth scope ∧
      left.db.divergences.lookup scope = right.db.divergences.lookup scope) ∧
    ∀ batch, Device.Mutable (left, right) batch → Device.SameVersions (left, right) batch →
      (left.applyBatch .none batch).1 = (right.applyBatch .none batch).1 := by
  have step : ∀ before batch after, before.1.Alike before.2 →
      Transition.Guarded Device.Fed (fun pair batch =>
        Device.Mutable pair batch ∧ Device.SameVersions pair batch) before batch after →
      after.1.Alike after.2 := by
    rintro before batch after alike ⟨⟨mutable, same⟩, rfl⟩
    exact (alike.fed mutable same).2
  have reached := run.invariant step
    (Device.restart_alike registry registry' migrations migrations' scopes db)
  have alike : left.Alike right := reached
  refine ⟨fun scope => ⟨?_, ?_, alike.scopeHealth scope, by rw [alike.divergences]⟩,
    fun batch mutable same => (alike.fed mutable same).1⟩
  · rw [Db.storedCursor, Db.storedCursor, Db.stored, Db.stored, alike.cursors, alike.digests]
  · rw [Db.storedDigest, Db.storedDigest, Db.stored, Db.stored, alike.cursors, alike.digests]

end Twins

namespace Sample

/-- The notes of an app that is one schema version ahead of them. -/
def newerNotes : Registry :=
  Registry.new.registerEntity ⟨note, scope, .ownerDraft, 2⟩

/-- The one migration it needs. -/
def toNewer : Migrations := Migrations.new.register note schema .ok

attribute [local instance] noteHashes

/-- The same row again, at its next version. -/
def editedNote : Batch :=
  lone (upsert 2 first 2) 2
    (ScopeDigest.empty.add note first 2)

/-- Both engines over one empty database, one of them without the migration. -/
def twins : Device × Device :=
  (Device.restart newerNotes toNewer [scope] {}, Device.restart newerNotes Migrations.new [scope] {})

/-- `Device.Fed` as a function. -/
def feedTwins (pair : Device × Device) (batch : Batch) : Option (Device × Device) :=
  some ((pair.1.applyBatch .none batch).2, (pair.2.applyBatch .none batch).2)

theorem quarantinedOnce_agree : ∃ left right,
    Transition.Run
      (Transition.Guarded Device.Fed fun pair batch =>
        Device.Mutable pair batch ∧ Device.SameVersions pair batch)
      twins [firstNote, secondNote] (left, right) ∧
    right.db.quarantine.length = 2 ∧ left.db.storedDigest scope = right.db.storedDigest scope := by
  have followed : (Transition.follow
      (fun pair batch => decide (Device.Mutable pair batch ∧ Device.SameVersions pair batch))
      feedTwins twins [firstNote, secondNote]).any (fun pair =>
        decide (pair.2.db.quarantine.length = 2)) = true := by
    decide +kernel
  have taken : ∀ before label after,
      decide (Device.Mutable before label ∧ Device.SameVersions before label) = true →
      feedTwins before label = some after →
      Transition.Guarded Device.Fed (fun pair batch =>
        Device.Mutable pair batch ∧ Device.SameVersions pair batch) before label after :=
    fun _ _ _ allowed goes => ⟨of_decide_eq_true allowed, (Option.some.inj goes).symm⟩
  obtain ⟨⟨left, right⟩, run, test⟩ := Transition.Run.of_follow_any taken followed
  exact ⟨left, right, run, of_decide_eq_true test, ((quarantine_is_invisible newerNotes newerNotes
    toNewer Migrations.new [scope] {} [firstNote, secondNote] left right run).1 scope).2.1⟩

/-- The row that was set aside is edited: its first version stays in the digest. -/
theorem editedInQuarantine_diverges : ∃ left right,
    Transition.Run Device.Fed twins [firstNote, editedNote] (left, right) ∧
    (∀ batch ∈ [firstNote, editedNote], Device.Mutable (left, right) batch ∧
      ∀ change ∈ batch.changes, left.engine.lands change = true) ∧
    left.db.storedDigest scope ≠ right.db.storedDigest scope ∧
    left.engine.scopeHealth scope = .healthy ∧ right.engine.scopeHealth scope = .tainted 1 := by
  have followed : (Transition.follow (fun _ _ => true) feedTwins twins [firstNote, editedNote]).any
      (fun pair => decide ((∀ batch ∈ [firstNote, editedNote], Device.Mutable (pair.1, pair.2) batch ∧
          ∀ change ∈ batch.changes, pair.1.engine.lands change = true) ∧
        pair.1.db.storedDigest scope ≠ pair.2.db.storedDigest scope ∧
        pair.1.engine.scopeHealth scope = .healthy ∧
        pair.2.engine.scopeHealth scope = .tainted 1)) = true := by
    decide +kernel
  have taken : ∀ before label after, true = true → feedTwins before label = some after →
      Device.Fed before label after := fun _ _ _ _ goes => (Option.some.inj goes).symm
  obtain ⟨⟨left, right⟩, run, test⟩ := Transition.Run.of_follow_any taken followed
  exact ⟨left, right, run, of_decide_eq_true test⟩

end Sample

end CredSync
