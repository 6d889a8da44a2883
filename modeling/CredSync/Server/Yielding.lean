import CredSync.Server.Migrating

/-! A migration lets go: what a call holds while it waits and after it has returned, and how many
steps it may take. -/

namespace CredSync

universe u

section Yielding

variable {Session : Type u} [DecidableEq Session] {before after deployment : Deployment Session}
  {event : DeploymentEvent Session} {db db' : SchemaDb Session} {session other : Session}
  {stage : MigrationStage} {reply : Bool} {migration : Migration}

/-- What a call holds at a stage, if no statement of it fails but for a lock; and what it may come
to. -/
def MigrationStage.Holds (db : SchemaDb Session) (session : Session) : MigrationStage → Prop
  | .settingTimeout | .waiting _ => db.Rests session
  | .locking => ¬ db.lock.HeldBy session
  | .applying _ => db.lock = some (session, 0)
  | .unlocking applied =>
    db.lock = some (session, 0) ∧ ∀ e, applied = .error e → e.lockUnavailable = true
  | .resettingTimeout outcome => ¬ db.lock.HeldBy session ∧ ∀ e, outcome ≠ .failed e
  | .finished result =>
    db.Rests session ∧ ∀ e, result = .error e → ∃ blocker, e = exhausted blocker

omit [DecidableEq Session] in
theorem MigrationStage.Holds.elsewhere (holds : stage.Holds db session)
    (apart : db.Apart other db') (different : session ≠ other) : stage.Holds db' session := by
  have away (free : ¬ db.lock.HeldBy session) : ¬ db'.lock.HeldBy session :=
    fun held => free ((apart.held session different).1.mp held)
  have kept (own : db.lock = some (session, 0)) : db'.lock = some (session, 0) := by
    rw [(apart.held session different).2 (own ▸ AdvisoryLock.heldBy_some.mpr rfl), own]
  cases stage with
  | settingTimeout => exact apart.rests different holds
  | locking => exact away holds
  | applying script => exact kept holds
  | unlocking applied => exact ⟨kept holds.1, holds.2⟩
  | resettingTimeout outcome => exact ⟨away holds.1, holds.2⟩
  | waiting blocker => exact apart.rests different holds
  | finished result => exact ⟨apart.rests different holds.1, holds.2⟩

theorem MigrationStage.Holds.answered (holds : stage.Holds db session)
    (ran : db.execute session stage = some (reply, db')) :
    (stage.next (.ok reply)).Holds db' session := by
  cases stage with
  | settingTimeout =>
    cases ran
    exact holds.1
  | locking =>
    simp only [SchemaDb.execute, Option.some.injEq, Prod.mk.injEq] at ran
    obtain ⟨granted, rfl⟩ := ran
    have once := AdvisoryLock.tryLock_free holds
    rw [granted] at once
    cases reply with
    | true => exact once
    | false =>
      refine ⟨?_, fun e failed => by cases failed⟩
      change ¬ (db.lock.tryLock session).2.HeldBy session
      rw [once]
      exact holds
  | applying script =>
    cases ran
    rw [MigrationStage.next]
    cases script.next with
    | some next => exact holds
    | none => exact ⟨holds, fun e failed => by cases failed⟩
  | unlocking applied =>
    cases ran
    have released : ¬ (db.lock.unlock session).HeldBy session := by
      rw [holds.1]
      simp [AdvisoryLock.unlock]
    refine ⟨released, fun e => ?_⟩
    cases applied with
    | ok _ => simp [Attempt.concluded, Except.map]
    | error failure => simp [Attempt.concluded, holds.2 failure rfl]
  | resettingTimeout outcome =>
    cases ran
    have rests : ({ db with timeouts := db.timeouts.erase session } : SchemaDb Session).Rests
        session := ⟨holds.1, Finset.notMem_erase session _⟩
    cases outcome with
    | done => exact ⟨rests, fun e failed => by cases failed⟩
    | contended blocker => exact rests
    | failed e => exact absurd rfl (holds.2 e)
  | waiting blocker => cases ran
  | finished result => cases ran

/-- A live call holds what its stage says, or nothing before it starts. -/
def Deployment.Yields (session : Session) (deployment : Deployment Session) : Prop :=
  session ∉ deployment.db.ended →
    ((deployment.migrations session).elim .settingTimeout Migration.stage).Holds
      deployment.db session

theorem Deployment.Yields.with (yields : before.Yields session) (apart : before.db.Apart other db)
    (live : db.ended = before.db.ended)
    (own : other = session → session ∉ before.db.ended → migration.stage.Holds db session) :
    (before.with db other migration).Yields session := by
  intro alive
  have alive' : session ∉ before.db.ended := live ▸ alive
  by_cases same : other = session
  · subst same
    rw [with_same]
    exact own rfl alive'
  · rw [with_other (Ne.symm same)]
    exact (yields alive').elsewhere apart (Ne.symm same)

omit [DecidableEq Session] in
theorem Deployment.Yields.found (yields : before.Yields session)
    (found : before.migrations session = some migration) (live : session ∉ before.db.ended) :
    migration.stage.Holds before.db session := by
  have holds := yields live
  rwa [found] at holds

theorem Deployment.Step.yields (step : before.Step event after)
    (safe : event.loses session = false) (yields : before.Yields session) :
    after.Yields session := by
  cases step.goes with
  | start other fresh =>
    refine yields.with (.refl _) rfl fun same live => ?_
    subst same
    have holds := yields live
    rwa [fresh] at holds
  | answer other migration reply db live found ran =>
    obtain ⟨apart, ended⟩ := SchemaDb.execute_apart ran
    refine yields.with apart ended fun same alive => ?_
    subst same
    exact (yields.found found alive).answered ran
  | contend other migration script detail live found stage =>
    refine yields.with (.refl _) rfl fun same alive => ?_
    subst same
    have holds := yields.found found alive
    rw [Migration.resume, stage]
    rw [stage] at holds
    exact ⟨holds, fun e failed => by cases failed; rfl⟩
  | lose other migration carried e reply db found ran =>
    exact yields.with (.refl _) rfl fun same => by simp [DeploymentEvent.loses, same] at safe
  | carry other migration e reply db live found ran =>
    obtain ⟨apart, ended⟩ := SchemaDb.execute_apart ran
    exact yields.with apart ended fun same => by simp [DeploymentEvent.loses, same] at safe
  | wake other migration blocker found stage =>
    refine yields.with (.refl _) rfl fun same alive => ?_
    subst same
    have holds := yields.found found alive
    rw [stage] at holds
    unfold Migration.wake
    split
    · exact holds
    · exact ⟨holds, fun e failed => ⟨blocker, by cases failed; rfl⟩⟩
  | drop other =>
    intro alive
    have apart := before.db.drop_apart other
    have different : session ≠ other := fun same => alive (same ▸ Finset.mem_insert_self _ _)
    have alive' : session ∉ before.db.ended :=
      fun gone => alive ((apart.ended session different).mpr gone)
    exact (yields alive').elsewhere apart different

/-! ### A bounded number of steps -/

/-- How many steps an attempt has left. -/
def MigrationStage.left : MigrationStage → Nat
  | .settingTimeout => 8
  | .locking => 7
  | .applying script => 6 - script.index
  | .unlocking _ => 3
  | .resettingTimeout _ => 2
  | .waiting _ => 1
  | .finished _ => 0

def Migration.left (migration : Migration) : Nat :=
  (migrationAttempts - 1 - migration.attempt) * 8 + migration.stage.left

/-- How many steps a session's call has left, or will have when it starts. -/
def Deployment.left (session : Session) (deployment : Deployment Session) : Nat :=
  ((deployment.migrations session).getD {}).left

theorem MigrationStage.left_next (ran : db.execute session stage = some (reply, db'))
    (answer : Except DriverError Bool) : (stage.next answer).left < stage.left := by
  cases stage with
  | settingTimeout => cases answer <;> simp [next, left]
  | locking =>
    cases answer with
    | ok granted => cases granted <;> simp [next, left, Script.index]
    | error e => simp [next, left]
  | applying script =>
    cases answer with
    | ok _ => cases script <;> simp [next, left, Script.next, Script.index]
    | error e => cases script <;> simp [next, left, Script.index]
  | unlocking applied => simp [next, left]
  | resettingTimeout outcome => cases outcome <;> simp [next, left]
  | waiting blocker => cases ran
  | finished result => cases ran

theorem Migration.left_resume (ran : db.execute session migration.stage = some (reply, db'))
    (answer : Except DriverError Bool) : (migration.resume answer).left < migration.left := by
  have fewer := MigrationStage.left_next ran answer
  unfold left resume
  simp only
  omega

theorem Migration.left_wake {blocker : String} (stage : migration.stage = .waiting blocker) :
    (migration.wake blocker).left < migration.left := by
  unfold wake left
  rw [stage]
  split
  · rename_i more
    simp only [MigrationStage.left]
    omega
  · simp [MigrationStage.left]

theorem Deployment.left_with (session : Session)
    (found : before.migrations other = some migration) {migration' : Migration}
    (fewer : migration'.left < migration.left) :
    (before.with db other migration').left session + (if other = session then 1 else 0) ≤
      before.left session := by
  unfold left
  by_cases same : other = session
  · subst same
    rw [with_same, found, if_pos rfl]
    exact fewer
  · rw [with_other (Ne.symm same), if_neg same, Nat.add_zero]

/-- A step of a call leaves it one less, and no other step touches it. -/
theorem Deployment.Step.left (step : before.Step event after) (session : Session) :
    after.left session + (if event.moves session then 1 else 0) ≤ before.left session := by
  cases step.goes with
  | start other fresh =>
    unfold Deployment.left
    by_cases same : other = session
    · subst same
      rw [with_same, fresh]
      exact le_rfl
    · rw [with_other (Ne.symm same)]
      exact le_rfl
  | answer other migration reply db live found ran =>
    simpa [DeploymentEvent.moves] using
      Deployment.left_with session found (Migration.left_resume ran (.ok reply))
  | contend other migration script detail live found stage =>
    have ran : before.db.execute other migration.stage = some (true,
        { before.db with schema := insert script before.db.schema }) := by
      rw [stage]
      rfl
    simpa [DeploymentEvent.moves] using
      Deployment.left_with session found (Migration.left_resume ran (.error ⟨detail, true⟩))
  | lose other migration carried e reply db found ran =>
    simpa [DeploymentEvent.moves] using
      Deployment.left_with session found (Migration.left_resume ran (.error e))
  | carry other migration e reply db live found ran =>
    simpa [DeploymentEvent.moves] using
      Deployment.left_with session found (Migration.left_resume ran (.error e))
  | wake other migration blocker found stage =>
    simpa [DeploymentEvent.moves] using
      Deployment.left_with session found (Migration.left_wake stage)
  | drop other => exact le_rfl

/-- A live call that has not returned can go on. -/
theorem Deployment.goes_on (live : session ∉ deployment.db.ended)
    (found : deployment.migrations session = some migration)
    (unfinished : ∀ result, migration.stage ≠ .finished result) :
    ∃ event after, event.moves session = true ∧ event.loses session = false ∧
      deployment.Step event after := by
  cases stage : migration.stage with
  | waiting blocker =>
    refine ⟨.wake session, deployment.with deployment.db session (migration.wake blocker),
      by simp [DeploymentEvent.moves], rfl, ?_⟩
    simp [Step, next, found, stage]
  | finished result => exact absurd stage (unfinished result)
  | _ =>
    obtain ⟨reply, db, ran⟩ : ∃ reply db,
        deployment.db.execute session migration.stage = some (reply, db) := by
      rw [stage]
      exact ⟨_, _, rfl⟩
    refine ⟨.answer session, deployment.with db session (migration.resume (.ok reply)),
      by simp [DeploymentEvent.moves], rfl, ?_⟩
    simp [Step, next, live, found, ran]

variable {labels : List (DeploymentEvent Session)}

/-- Whether a session holds what its stage says, if none of its statements so far has failed but for
a lock. -/
def Deployment.Spared (session : Session) (past : List (DeploymentEvent Session))
    (deployment : Deployment Session) : Prop :=
  (∀ label ∈ past, label.loses session = false) → deployment.Yields session

theorem Deployment.Spared.of_run (run : Transition.Run Deployment.Step {} labels deployment) :
    deployment.Spared session labels := by
  have kept (past : List (DeploymentEvent Session)) (before : Deployment Session)
      (label : DeploymentEvent Session) (after : Deployment Session)
      (spared : before.Spared session past) (step : before.Step label after) :
      after.Spared session (past ++ [label]) := fun safe =>
    step.yields (safe label (by simp)) (spared fun label member => safe label (by simp [member]))
  have initially : ({} : Deployment Session).Spared session [] := fun _ _ =>
    ⟨AdvisoryLock.not_heldBy_none, Finset.notMem_empty _⟩
  exact run.history kept initially

theorem Deployment.moves_le (run : Transition.Run Deployment.Step before labels deployment)
    (session : Session) :
    labels.countP (DeploymentEvent.moves session) + deployment.left session ≤
      before.left session := by
  refine run.countP_le ?_ ?_
  · intro before label after step moves
    have less := step.left session
    rwa [if_pos moves] at less
  · intro before label after step stays
    have same := step.left session
    rwa [if_neg (by simp [stays])] at same

/-- A migration that is in the way of nobody: in every such course, a live session none of whose
statements fails but for a lock holds no lock and no lock timeout while its call waits and after it
has returned, its call returns without an error or with the one that says what blocked it, it can
always go on until then, and it takes no more than eighty steps. -/
theorem migrations_yield (run : Transition.Run Deployment.Step {} labels deployment)
    (session : Session) (live : session ∉ deployment.db.ended)
    (safe : ∀ label ∈ labels, label.loses session = false) :
    (∀ migration blocker, deployment.migrations session = some migration →
      migration.stage = .waiting blocker → deployment.db.Rests session) ∧
    (∀ result, deployment.Finished session result → deployment.db.Rests session ∧
      ∀ e, result = .error e → ∃ blocker, e = exhausted blocker) ∧
    ((∃ result, deployment.Finished session result) ∨ deployment.migrations session = none ∨
      ∃ event after, event.moves session = true ∧ event.loses session = false ∧
        deployment.Step event after) ∧
    labels.countP (DeploymentEvent.moves session) ≤ 80 := by
  have yields : deployment.Yields session := Deployment.Spared.of_run run safe
  have holds (migration : Migration) (found : deployment.migrations session = some migration) :=
    yields.found found live
  refine ⟨?_, ?_, ?_, ?_⟩
  · intro migration blocker found stage
    have waits := holds migration found
    rw [stage] at waits
    exact waits
  · rintro result ⟨migration, found, stage⟩
    have returned := holds migration found
    rw [stage] at returned
    exact returned
  · cases found : deployment.migrations session with
    | none => exact .inr (.inl rfl)
    | some migration =>
      by_cases finished : ∃ result, migration.stage = .finished result
      · obtain ⟨result, stage⟩ := finished
        exact .inl ⟨result, migration, found, stage⟩
      · exact .inr (.inr (Deployment.goes_on live found (not_exists.mp finished)))
  · have within := Deployment.moves_le run session
    exact Nat.le_of_add_right_le within

end Yielding

namespace Sample

theorem rollingStart_yields : ∃ deployment,
    Transition.Run Deployment.Step {} rollingStart deployment ∧ deployment.db.Rests true ∧
      rollingStart.countP (DeploymentEvent.moves true) ≤ 80 := by
  obtain ⟨deployment, run, -, finished, alive⟩ := rollingStart_run
  have none : (rollingStart.all fun label => label.loses true == false) = true := by
    decide +kernel
  have safe : ∀ label ∈ rollingStart, label.loses true = false :=
    fun label member => eq_of_beq (List.all_eq_true.mp none label member)
  obtain ⟨-, returned, -, within⟩ :=
    migrations_yield run true (alive ▸ Finset.notMem_empty true) safe
  exact ⟨deployment, run, (returned _ finished).1, within⟩

end Sample

end CredSync
