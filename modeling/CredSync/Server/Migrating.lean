import CredSync.Library.AdvisoryLock
import CredSync.Library.Run
import CredSync.Server.Pull
import Mathlib.Data.Finset.Basic

/-! The schema migration. Instances that start at once each apply the scripts under an advisory
lock that belongs to their session; one that cannot get its locks lets go of everything, waits,
and tries again, a bounded number of times. -/

namespace CredSync

universe u

/-- The scripts, in the order they are applied. -/
inductive Script where
  | syncTables
  | scopeBlocklist
  | watermark
  deriving DecidableEq

def Script.index : Script → Nat
  | .syncTables => 0
  | .scopeBlocklist => 1
  | .watermark => 2

def Script.next : Script → Option Script
  | .syncTables => some .scopeBlocklist
  | .scopeBlocklist => some .watermark
  | .watermark => none

/-- An error of the driver, as far as `is_lock_unavailable` tells one from another. -/
structure DriverError where
  detail : String
  lockUnavailable : Bool

/-- `ServerError::from(tokio_postgres::Error)`. -/
def DriverError.toServerError (e : DriverError) : ServerError := .database e.detail

/-- The outcome of one attempt. Being contended is not an error. -/
inductive Attempt where
  | done
  | contended (blocker : String)
  | failed (e : DriverError)

/-- What an attempt comes to after its scripts and the release of its lock. -/
def Attempt.concluded (applied unlocked : Except DriverError Unit) : Attempt :=
  match applied with
  | .ok () =>
    match unlocked with
    | .ok () => .done
    | .error e => .failed e
  | .error e =>
    if e.lockUnavailable then .contended "a transaction is holding a lock on sync_changes"
    else .failed e

/-- Where a call of `migrate` is, named after the statement it runs next. -/
inductive MigrationStage where
  | settingTimeout
  | locking
  | applying (script : Script)
  | unlocking (applied : Except DriverError Unit)
  | resettingTimeout (outcome : Attempt)
  | waiting (blocker : String)
  | finished (result : Except ServerError Unit)

/-- What follows a reply. A statement that does not ask for anything replies with `true`. -/
def MigrationStage.next : MigrationStage → Except DriverError Bool → MigrationStage
  | .settingTimeout, .ok _ => .locking
  | .settingTimeout, .error e => .finished (.error e.toServerError)
  | .locking, .ok true => .applying .syncTables
  | .locking, .ok false =>
    .resettingTimeout (.contended "another migration holds the advisory lock")
  | .locking, .error e => .resettingTimeout (.failed e)
  | .applying script, .ok _ => script.next.elim (.unlocking (.ok ())) .applying
  | .applying _, .error e => .unlocking (.error e)
  | .unlocking applied, reply => .resettingTimeout (.concluded applied (reply.map fun _ => ()))
  -- best effort: the reply is not looked at
  | .resettingTimeout .done, _ => .finished (.ok ())
  | .resettingTimeout (.contended blocker), _ => .waiting blocker
  | .resettingTimeout (.failed e), _ => .finished (.error e.toServerError)
  | .waiting blocker, _ => .waiting blocker
  | .finished result, _ => .finished result

def migrationAttempts : Nat := 10

/-- The error after the last attempt. -/
def exhausted (blocker : String) : ServerError :=
  .database (s!"the schema migration could not acquire its locks after {migrationAttempts} " ++
    "attempts; something is holding a transaction open on sync_changes " ++ s!"({blocker})")

/-- A call of `migrate`. -/
structure Migration where
  attempt : Nat := 0
  stage : MigrationStage := .settingTimeout

def Migration.resume (migration : Migration) (reply : Except DriverError Bool) : Migration :=
  { migration with stage := migration.stage.next reply }

/-- After the wait, the next attempt, or the error if there is none left. -/
def Migration.wake (migration : Migration) (blocker : String) : Migration :=
  if migration.attempt + 1 < migrationAttempts then { attempt := migration.attempt + 1 }
  else { migration with stage := .finished (.error (exhausted blocker)) }

/-- The scripts that are applied, the advisory lock, and the sessions: those whose `lock_timeout` is
set, and those that have ended. -/
structure SchemaDb (Session : Type u) where
  schema : Finset Script := ∅
  lock : AdvisoryLock Session := none
  timeouts : Finset Session := ∅
  ended : Finset Session := ∅

/-- The database, and the instances that have started, each on a session of its own. -/
structure Deployment (Session : Type u) where
  db : SchemaDb Session := {}
  migrations : Session → Option Migration := fun _ => none

/-- A statement is answered, or runs into the lock timeout, or fails otherwise: then it may have
been carried out all the same. A session may end at any time. -/
inductive DeploymentEvent (Session : Type u) where
  | start (session : Session)
  | answer (session : Session)
  | contend (session : Session) (detail : String)
  | lose (session : Session) (carried : Bool) (e : DriverError)
  | wake (session : Session)
  | drop (session : Session)

section Steps

variable {Session : Type u} [DecidableEq Session]

/-- Carries out the statement of a stage. A script is one transaction. -/
def SchemaDb.execute (db : SchemaDb Session) (session : Session) :
    MigrationStage → Option (Bool × SchemaDb Session)
  | .settingTimeout => some (true, { db with timeouts := insert session db.timeouts })
  | .locking =>
    let (granted, lock) := db.lock.tryLock session
    some (granted, { db with lock := lock })
  | .applying script => some (true, { db with schema := insert script db.schema })
  | .unlocking _ => some (true, { db with lock := db.lock.unlock session })
  | .resettingTimeout _ => some (true, { db with timeouts := db.timeouts.erase session })
  | .waiting _ | .finished _ => none

def SchemaDb.drop (db : SchemaDb Session) (session : Session) : SchemaDb Session :=
  { db with
    lock := db.lock.ended session
    timeouts := db.timeouts.erase session
    ended := insert session db.ended }

def Deployment.with (deployment : Deployment Session) (db : SchemaDb Session) (session : Session)
    (migration : Migration) : Deployment Session where
  db := db
  migrations := Function.update deployment.migrations session (some migration)

def Deployment.next (deployment : Deployment Session) :
    DeploymentEvent Session → Option (Deployment Session)
  | .start session =>
    if (deployment.migrations session).isSome then none
    else some (deployment.with deployment.db session {})
  | .answer session =>
    if session ∈ deployment.db.ended then none
    else (deployment.migrations session).bind fun migration =>
      (deployment.db.execute session migration.stage).map fun (reply, db) =>
        deployment.with db session (migration.resume (.ok reply))
  | .contend session detail =>
    if session ∈ deployment.db.ended then none
    else (deployment.migrations session).bind fun migration =>
      match migration.stage with
      | .applying _ => some (deployment.with deployment.db session
          (migration.resume (.error ⟨detail, true⟩)))
      | _ => none
  | .lose session carried e =>
    (deployment.migrations session).bind fun migration =>
      (deployment.db.execute session migration.stage).map fun (_, db) =>
        let db := if carried && session ∉ deployment.db.ended then db else deployment.db
        deployment.with db session (migration.resume (.error e))
  | .wake session =>
    (deployment.migrations session).bind fun migration =>
      match migration.stage with
      | .waiting blocker => some (deployment.with deployment.db session (migration.wake blocker))
      | _ => none
  | .drop session => some { deployment with db := deployment.db.drop session }

def Deployment.Step (before : Deployment Session) (event : DeploymentEvent Session)
    (after : Deployment Session) : Prop :=
  before.next event = some after

/-- Whether an event moves a session's call on. -/
def DeploymentEvent.moves (session : Session) : DeploymentEvent Session → Bool
  | .answer other | .contend other _ | .lose other _ _ | .wake other => other = session
  | .start _ | .drop _ => false

/-- Whether a session's statement fails for another reason than a lock. -/
def DeploymentEvent.loses (session : Session) : DeploymentEvent Session → Bool
  | .lose other _ _ => other = session
  | _ => false

end Steps

/-! ### What one step does -/

section Inversion

variable {Session : Type u} [DecidableEq Session] {before after : Deployment Session}
  {event : DeploymentEvent Session}

/-- The steps there are, each with what it finds and what it leaves. -/
inductive Deployment.Goes (before : Deployment Session) :
    DeploymentEvent Session → Deployment Session → Prop where
  | start (session : Session) (fresh : before.migrations session = none) :
      Goes before (.start session) (before.with before.db session {})
  | answer (session : Session) (migration : Migration) (reply : Bool) (db : SchemaDb Session)
      (live : session ∉ before.db.ended) (found : before.migrations session = some migration)
      (ran : before.db.execute session migration.stage = some (reply, db)) :
      Goes before (.answer session) (before.with db session (migration.resume (.ok reply)))
  | contend (session : Session) (migration : Migration) (script : Script) (detail : String)
      (live : session ∉ before.db.ended) (found : before.migrations session = some migration)
      (stage : migration.stage = .applying script) :
      Goes before (.contend session detail)
        (before.with before.db session (migration.resume (.error ⟨detail, true⟩)))
  | lose (session : Session) (migration : Migration) (carried : Bool) (e : DriverError)
      (reply : Bool) (db : SchemaDb Session) (found : before.migrations session = some migration)
      (ran : before.db.execute session migration.stage = some (reply, db)) :
      Goes before (.lose session carried e)
        (before.with before.db session (migration.resume (.error e)))
  | carry (session : Session) (migration : Migration) (e : DriverError) (reply : Bool)
      (db : SchemaDb Session) (live : session ∉ before.db.ended)
      (found : before.migrations session = some migration)
      (ran : before.db.execute session migration.stage = some (reply, db)) :
      Goes before (.lose session true e) (before.with db session (migration.resume (.error e)))
  | wake (session : Session) (migration : Migration) (blocker : String)
      (found : before.migrations session = some migration)
      (stage : migration.stage = .waiting blocker) :
      Goes before (.wake session) (before.with before.db session (migration.wake blocker))
  | drop (session : Session) :
      Goes before (.drop session) { before with db := before.db.drop session }

theorem Deployment.Step.goes (step : before.Step event after) : before.Goes event after := by
  unfold Step at step
  cases event with
  | start session =>
    simp only [next] at step
    split at step
    · cases step
    · rename_i fresh
      cases step
      exact .start session (Option.not_isSome_iff_eq_none.mp fresh)
  | answer session =>
    simp only [next] at step
    split at step
    · cases step
    · rename_i live
      obtain ⟨migration, found, step⟩ := Option.bind_eq_some_iff.mp step
      obtain ⟨⟨reply, db⟩, ran, rfl⟩ := Option.map_eq_some_iff.mp step
      exact .answer session migration reply db live found ran
  | contend session detail =>
    simp only [next] at step
    split at step
    · cases step
    · rename_i live
      obtain ⟨migration, found, step⟩ := Option.bind_eq_some_iff.mp step
      cases stage : migration.stage with
      | applying script =>
        rw [stage] at step
        cases step
        exact .contend session migration script detail live found stage
      | _ =>
        rw [stage] at step
        cases step
  | lose session carried e =>
    simp only [next] at step
    obtain ⟨migration, found, step⟩ := Option.bind_eq_some_iff.mp step
    obtain ⟨⟨reply, db⟩, ran, rfl⟩ := Option.map_eq_some_iff.mp step
    by_cases done : (carried && decide (session ∉ before.db.ended)) = true
    · rw [if_pos done]
      obtain ⟨rfl, live⟩ := (Bool.and_eq_true _ _).mp done
      exact .carry session migration e reply db (of_decide_eq_true live) found ran
    · rw [if_neg done]
      exact .lose session migration carried e reply db found ran
  | wake session =>
    simp only [next] at step
    obtain ⟨migration, found, step⟩ := Option.bind_eq_some_iff.mp step
    cases stage : migration.stage with
    | waiting blocker =>
      rw [stage] at step
      cases step
      exact .wake session migration blocker found stage
    | _ =>
      rw [stage] at step
      cases step
  | drop session =>
    cases step
    exact .drop session

end Inversion

/-! ### What one session does to the others -/

section Apart

variable {Session : Type u} [DecidableEq Session] {db after : SchemaDb Session}
  {session other : Session} {stage : MigrationStage} {reply : Bool}

/-- Scripts stay applied, and no other session's lock, timeout or end is touched. -/
structure SchemaDb.Apart (session : Session) (before after : SchemaDb Session) : Prop where
  schema : before.schema ⊆ after.schema
  held : ∀ other ≠ session, (after.lock.HeldBy other ↔ before.lock.HeldBy other) ∧
    (before.lock.HeldBy other → after.lock = before.lock)
  timeouts : ∀ other ≠ session, other ∈ after.timeouts ↔ other ∈ before.timeouts
  ended : ∀ other ≠ session, other ∈ after.ended ↔ other ∈ before.ended

omit [DecidableEq Session] in
theorem SchemaDb.Apart.refl (db : SchemaDb Session) : db.Apart session db :=
  ⟨Finset.Subset.refl _, fun _ _ => ⟨.rfl, fun _ => rfl⟩, fun _ _ => .rfl, fun _ _ => .rfl⟩

theorem SchemaDb.execute_apart (ran : db.execute session stage = some (reply, after)) :
    db.Apart session after ∧ after.ended = db.ended := by
  cases stage with
  | settingTimeout =>
    cases ran
    refine ⟨⟨Finset.Subset.refl _, fun _ _ => ⟨.rfl, fun _ => rfl⟩, fun other different => ?_,
      fun _ _ => .rfl⟩, rfl⟩
    simp [different]
  | locking =>
    cases ran
    exact ⟨⟨Finset.Subset.refl _, fun other different =>
      ⟨AdvisoryLock.heldBy_tryLock different, fun held =>
        AdvisoryLock.tryLock_elsewhere held (Ne.symm different)⟩,
      fun _ _ => .rfl, fun _ _ => .rfl⟩, rfl⟩
  | applying script =>
    cases ran
    exact ⟨⟨Finset.subset_insert script db.schema, fun _ _ => ⟨.rfl, fun _ => rfl⟩,
      fun _ _ => .rfl, fun _ _ => .rfl⟩, rfl⟩
  | unlocking applied =>
    cases ran
    exact ⟨⟨Finset.Subset.refl _, fun other different =>
      ⟨AdvisoryLock.heldBy_unlock different, fun held =>
        AdvisoryLock.unlock_elsewhere held (Ne.symm different)⟩,
      fun _ _ => .rfl, fun _ _ => .rfl⟩, rfl⟩
  | resettingTimeout outcome =>
    cases ran
    refine ⟨⟨Finset.Subset.refl _, fun _ _ => ⟨.rfl, fun _ => rfl⟩, fun other different => ?_,
      fun _ _ => .rfl⟩, rfl⟩
    simp [different]
  | waiting blocker => cases ran
  | finished result => cases ran

theorem SchemaDb.drop_apart (db : SchemaDb Session) (session : Session) :
    db.Apart session (db.drop session) where
  schema := Finset.Subset.refl _
  held other different := ⟨AdvisoryLock.heldBy_ended different, fun held =>
    AdvisoryLock.ended_elsewhere held (Ne.symm different)⟩
  timeouts other different := by simp [drop, different]
  ended other different := by simp [drop, different]

end Apart

/-! ### Turns -/

section Turns

variable {Session : Type u} [DecidableEq Session] {before after deployment : Deployment Session}
  {event : DeploymentEvent Session} {db : SchemaDb Session} {session : Session}
  {stage : MigrationStage} {reply : Bool} {schema schema' : Finset Script}

/-- Whether a call is between the grant of its lock and the release. -/
def MigrationStage.inside : MigrationStage → Bool
  | .applying _ | .unlocking _ => true
  | _ => false

/-- What a call knows to be applied. -/
def MigrationStage.Knows (schema : Finset Script) : MigrationStage → Prop
  | .applying script => ∀ earlier : Script, earlier.index < script.index → earlier ∈ schema
  | .unlocking (.ok ()) | .resettingTimeout .done | .finished (.ok ()) => ∀ script, script ∈ schema
  | _ => True

omit [DecidableEq Session] in
theorem MigrationStage.Knows.mono (knows : stage.Knows schema) (grown : schema ⊆ schema') :
    stage.Knows schema' := by
  cases stage with
  | applying script => exact fun earlier below => grown (knows earlier below)
  | unlocking applied =>
    cases applied with
    | ok _ => exact fun script => grown (knows script)
    | error e => trivial
  | resettingTimeout outcome =>
    cases outcome with
    | done => exact fun script => grown (knows script)
    | _ => trivial
  | finished result =>
    cases result with
    | ok _ => exact fun script => grown (knows script)
    | error e => trivial
  | _ => trivial

/-- The scripts before the next one are those before this one, and this one. -/
theorem Script.next_index {script next : Script} (follows : script.next = some next)
    {earlier : Script} (below : earlier.index < next.index) :
    earlier = script ∨ earlier.index < script.index := by
  cases script <;> cases follows <;> cases earlier <;> simp_all [Script.index]

theorem Script.last_index {script : Script} (last : script.next = none) (other : Script) :
    other = script ∨ other.index < script.index := by
  cases script with
  | watermark => cases other <;> simp [Script.index]
  | _ => cases last

theorem MigrationStage.Knows.answered (knows : stage.Knows db.schema) {db' : SchemaDb Session}
    (ran : db.execute session stage = some (reply, db')) :
    (stage.next (.ok reply)).Knows db'.schema := by
  cases stage with
  | settingTimeout => trivial
  | locking =>
    cases reply with
    | true => exact fun earlier below => absurd below (Nat.not_lt_zero _)
    | false => trivial
  | applying script =>
    cases ran
    have covers (earlier : Script) (within : earlier = script ∨ earlier.index < script.index) :
        earlier ∈ insert script db.schema := by
      rcases within with rfl | below
      · exact Finset.mem_insert_self _ _
      · exact Finset.mem_insert_of_mem (knows earlier below)
    rw [MigrationStage.next]
    cases follows : script.next with
    | some next => exact fun earlier below => covers earlier (script.next_index follows below)
    | none => exact fun other => covers other (script.last_index follows other)
  | unlocking applied =>
    cases ran
    cases applied with
    | ok _ => exact knows
    | error e =>
      rw [MigrationStage.next, Attempt.concluded]
      split <;> trivial
  | resettingTimeout outcome =>
    cases ran
    cases outcome with
    | done => exact knows
    | _ => trivial
  | waiting blocker => cases ran
  | finished result => cases ran

omit [DecidableEq Session] in
theorem MigrationStage.Knows.failed (knows : stage.Knows schema) (e : DriverError) :
    (stage.next (.error e)).Knows schema := by
  cases stage with
  | unlocking applied =>
    cases applied with
    | ok _ => trivial
    | error e =>
      rw [MigrationStage.next, Attempt.concluded]
      split <;> trivial
  | resettingTimeout outcome =>
    cases outcome with
    | done => exact knows
    | _ => trivial
  | finished result => exact knows
  | _ => trivial

/-- Scripts before an applied one are applied. -/
def Ordered (schema : Finset Script) : Prop :=
  ∀ script ∈ schema, ∀ earlier : Script, earlier.index < script.index → earlier ∈ schema

/-- Whether a session has neither the lock nor a lock timeout of its own. -/
def SchemaDb.Rests (db : SchemaDb Session) (session : Session) : Prop :=
  ¬ db.lock.HeldBy session ∧ session ∉ db.timeouts

/-- The scripts are applied in order, each call knows what it applied, a call that is inside holds
the lock unless its session has ended, and a session that has ended holds nothing. -/
structure Deployment.Sound (deployment : Deployment Session) : Prop where
  ordered : Ordered deployment.db.schema
  gone : ∀ session ∈ deployment.db.ended, deployment.db.Rests session
  knows : ∀ session migration, deployment.migrations session = some migration →
    migration.stage.Knows deployment.db.schema
  locked : ∀ session migration, deployment.migrations session = some migration →
    migration.stage.inside = true → session ∉ deployment.db.ended →
      deployment.db.lock.HeldBy session

theorem SchemaDb.execute_ordered (ordered : Ordered db.schema) (knows : stage.Knows db.schema)
    {db' : SchemaDb Session} (ran : db.execute session stage = some (reply, db')) :
    Ordered db'.schema := by
  cases stage with
  | applying script =>
    cases ran
    intro other member earlier below
    rcases Finset.mem_insert.mp member with rfl | member
    · exact Finset.mem_insert_of_mem (knows earlier below)
    · exact Finset.mem_insert_of_mem (ordered other member earlier below)
  | waiting blocker => cases ran
  | finished result => cases ran
  | _ =>
    cases ran
    exact ordered

/-- A call that goes on inside has the lock, or keeps it. -/
theorem SchemaDb.execute_inside (held : stage.inside = true → db.lock.HeldBy session)
    {db' : SchemaDb Session} (ran : db.execute session stage = some (reply, db'))
    (inside : (stage.next (.ok reply)).inside = true) : db'.lock.HeldBy session := by
  cases stage with
  | locking =>
    simp only [SchemaDb.execute, Option.some.injEq, Prod.mk.injEq] at ran
    obtain ⟨granted, rfl⟩ := ran
    cases reply with
    | true => exact AdvisoryLock.tryLock_granted granted
    | false => cases inside
  | applying script =>
    cases ran
    exact held rfl
  | resettingTimeout outcome => cases outcome <;> cases inside
  | waiting blocker => cases ran
  | finished result => cases ran
  | _ => cases inside

omit [DecidableEq Session] in
/-- A call that is inside after a failure was applying a script. -/
theorem MigrationStage.inside_failed {e : DriverError}
    (inside : (stage.next (.error e)).inside = true) : ∃ script, stage = .applying script := by
  cases stage with
  | applying script => exact ⟨script, rfl⟩
  | resettingTimeout outcome => cases outcome <;> cases inside
  | _ => cases inside

@[simp] theorem Deployment.with_same (migration : Migration) :
    (before.with db session migration).migrations session = some migration :=
  Function.update_self ..

theorem Deployment.with_other {other : Session} (different : other ≠ session)
    (migration : Migration) :
    (before.with db session migration).migrations other = before.migrations other :=
  Function.update_of_ne different ..

omit [DecidableEq Session] in
theorem SchemaDb.Apart.rests {db' : SchemaDb Session} {other : Session}
    (apart : db.Apart session db') (different : other ≠ session) (rests : db.Rests other) :
    db'.Rests other :=
  ⟨fun held => rests.1 ((apart.held other different).1.mp held),
    fun set => rests.2 ((apart.timeouts other different).mp set)⟩

theorem Deployment.Sound.with (sound : before.Sound) (apart : before.db.Apart session db)
    (live : db.ended = before.db.ended) (gone : session ∈ before.db.ended → db.Rests session)
    (ordered : Ordered db.schema) {migration : Migration}
    (knows : migration.stage.Knows db.schema)
    (locked : migration.stage.inside = true → session ∉ before.db.ended →
      db.lock.HeldBy session) : (before.with db session migration).Sound where
  ordered := ordered
  gone other ended := by
    have ended' : other ∈ before.db.ended := live ▸ ended
    by_cases same : other = session
    · exact same ▸ gone (same ▸ ended')
    · exact apart.rests same (sound.gone other ended')
  knows other migration' found := by
    by_cases same : other = session
    · subst same
      rw [with_same] at found
      cases found
      exact knows
    · rw [with_other same] at found
      exact (sound.knows other migration' found).mono apart.schema
  locked other migration' found inside alive := by
    by_cases same : other = session
    · subst same
      rw [with_same] at found
      cases found
      exact locked inside (live ▸ alive)
    · rw [with_other same] at found
      exact ((apart.held other same).1).mpr
        (sound.locked other migration' found inside (live ▸ alive))

theorem Deployment.Step.sound (step : before.Step event after) (sound : before.Sound) :
    after.Sound := by
  cases step.goes with
  | start session fresh =>
    refine sound.with (.refl _) rfl (sound.gone session) sound.ordered trivial fun inside => ?_
    cases inside
  | answer session migration reply db live found ran =>
    obtain ⟨apart, ended⟩ := SchemaDb.execute_apart ran
    have knows := sound.knows session migration found
    exact sound.with apart ended (absurd · live) (SchemaDb.execute_ordered sound.ordered knows ran)
      (knows.answered ran) fun inside alive => SchemaDb.execute_inside
        (fun was => sound.locked session migration found was alive) ran inside
  | contend session migration script detail live found stage =>
    refine sound.with (.refl _) rfl (sound.gone session) sound.ordered
      ((sound.knows session migration found).failed _)
      fun _ alive => sound.locked session migration found ?_ alive
    rw [stage]
    rfl
  | lose session migration carried e reply db found ran =>
    refine sound.with (.refl _) rfl (sound.gone session) sound.ordered
      ((sound.knows session migration found).failed _)
      fun inside alive => sound.locked session migration found ?_ alive
    obtain ⟨script, stage⟩ := MigrationStage.inside_failed inside
    rw [stage]
    rfl
  | carry session migration e reply db live found ran =>
    obtain ⟨apart, ended⟩ := SchemaDb.execute_apart ran
    have knows := sound.knows session migration found
    refine sound.with apart ended (absurd · live) (SchemaDb.execute_ordered sound.ordered knows ran)
      ((knows.failed e).mono apart.schema) fun inside alive => ?_
    obtain ⟨script, stage⟩ := MigrationStage.inside_failed inside
    have held := sound.locked session migration found (by rw [stage]; rfl) alive
    rw [stage] at ran
    cases ran
    exact held
  | wake session migration blocker found stage =>
    refine sound.with (.refl _) rfl (sound.gone session) sound.ordered ?_ fun inside => ?_
    · unfold Migration.wake
      split <;> trivial
    · unfold Migration.wake at inside
      split at inside <;> cases inside
  | drop session =>
    have apart := before.db.drop_apart session
    refine ⟨sound.ordered, fun other gone => ?_, sound.knows,
      fun other migration found inside alive => ?_⟩
    · by_cases same : other = session
      · subst same
        exact ⟨AdvisoryLock.not_heldBy_ended, Finset.notMem_erase other _⟩
      · exact apart.rests same (sound.gone other ((apart.ended other same).mp gone))
    have different : other ≠ session := fun same => alive (same ▸ Finset.mem_insert_self _ _)
    have alive' : other ∉ before.db.ended :=
      fun gone => alive ((apart.ended other different).mpr gone)
    exact ((apart.held other different).1).mpr (sound.locked other migration found inside alive')

/-- A call that is applying scripts, on a session that has not ended. -/
def Deployment.Applies (deployment : Deployment Session) (session : Session) : Prop :=
  session ∉ deployment.db.ended ∧ ∃ migration, deployment.migrations session = some migration ∧
    migration.stage.inside = true

/-- A call that has returned. -/
def Deployment.Finished (deployment : Deployment Session) (session : Session)
    (result : Except ServerError Unit) : Prop :=
  ∃ migration, deployment.migrations session = some migration ∧ migration.stage = .finished result

omit [DecidableEq Session] in
theorem Deployment.start_sound : ({} : Deployment Session).Sound where
  ordered _ member := absurd member (Finset.notMem_empty _)
  gone _ ended := absurd ended (Finset.notMem_empty _)
  knows _ _ found := by cases found
  locked _ _ found := by cases found

variable {labels : List (DeploymentEvent Session)}

theorem Deployment.Sound.of_run (run : Transition.Run Deployment.Step {} labels deployment) :
    deployment.Sound :=
  run.invariant (fun _ _ _ sound step => step.sound sound) start_sound

/-- Migrations take turns: whichever instances start, on whatever sessions, and whichever of their
statements are answered, time out, fail or are lost with their session, the scripts are applied in
order, no two live sessions apply them at once, a call that returned without an error left every
script applied, and a session that has ended holds nothing. -/
theorem migrations_take_turns (run : Transition.Run Deployment.Step {} labels deployment) :
    Ordered deployment.db.schema ∧
    (∀ session other, deployment.Applies session → deployment.Applies other → session = other) ∧
    (∀ session, deployment.Finished session (.ok ()) → ∀ script, script ∈ deployment.db.schema) ∧
    ∀ session ∈ deployment.db.ended, deployment.db.Rests session := by
  have sound := Deployment.Sound.of_run run
  refine ⟨sound.ordered, ?_, ?_, sound.gone⟩
  · rintro session other ⟨live, migration, found, inside⟩ ⟨live', migration', found', inside'⟩
    exact (sound.locked session migration found inside live).unique
      (sound.locked other migration' found' inside' live')
  · rintro session ⟨migration, found, stage⟩
    have knows := sound.knows session migration found
    rw [stage] at knows
    exact knows

end Turns

namespace Sample

/-- Two instances start at once. The second is refused the lock while the first holds it; the first
then waits too long for a table, and both get through at a later attempt. -/
def rollingStart : List (DeploymentEvent Bool) :=
  let answers (session : Bool) (count : Nat) : List (DeploymentEvent Bool) :=
    List.replicate count (.answer session)
  [.start false, .start true] ++ answers false 2 ++ answers true 3 ++ answers false 1 ++
    [.contend false "canceling statement due to lock timeout"] ++ answers false 2 ++
    [.wake true] ++ answers true 7 ++ [.wake false] ++ answers false 7

/-- Whether a call has returned without an error. -/
def migrated (session : Bool) (deployment : Deployment Bool) : Bool :=
  match (deployment.migrations session).map Migration.stage with
  | some (.finished (.ok ())) => true
  | _ => false

theorem migrated_finished {deployment : Deployment Bool} {session : Bool}
    (done : migrated session deployment = true) : deployment.Finished session (.ok ()) := by
  unfold migrated at done
  split at done
  · rename_i stage
    obtain ⟨migration, found, stage⟩ := Option.map_eq_some_iff.mp stage
    exact ⟨migration, found, stage⟩
  · cases done

theorem rollingStart_run : ∃ deployment,
    Transition.Run Deployment.Step {} rollingStart deployment ∧
      deployment.Finished false (.ok ()) ∧ deployment.Finished true (.ok ()) ∧
      deployment.db.ended = ∅ := by
  have followed : (Transition.follow (fun _ _ => true) Deployment.next {} rollingStart).any
      (fun deployment => migrated false deployment && migrated true deployment &&
        decide (deployment.db.ended = ∅)) = true := by
    decide +kernel
  obtain ⟨deployment, run, reached⟩ := Transition.Run.of_follow_any
    (fun _ _ _ _ moved => moved) followed
  rw [Bool.and_eq_true, Bool.and_eq_true] at reached
  exact ⟨deployment, run, migrated_finished reached.1.1, migrated_finished reached.1.2,
    of_decide_eq_true reached.2⟩

theorem rollingStart_turns : ∃ deployment,
    Transition.Run Deployment.Step {} rollingStart deployment ∧
      ∀ script, script ∈ deployment.db.schema := by
  obtain ⟨deployment, run, -, finished, -⟩ := rollingStart_run
  exact ⟨deployment, run, (migrations_take_turns run).2.2.1 true finished⟩

end Sample

end CredSync
