import CredSync.Core.Coherence
import CredSync.Core.OutboxLedger

/-! A scope's health in memory and in storage. The divergence record is written in
the transaction that decides it, but it is read back by a restart alone: a reload
after a failed transaction re-reads the position and not the record. -/

namespace CredSync

/-- The health a restart would restore for a scope. -/
def Db.health (db : Db) (scope : ScopeId) : ScopeHealth :=
  match db.divergences.lookup scope with
  | some (attempts, healed) =>
    if attempts = 0 then .healthy else Engine.restoredHealth attempts healed
  | none => .healthy

/-- The attempt count storage holds for a scope. -/
def Db.attempts (db : Db) (scope : ScopeId) : Nat :=
  ((db.divergences.lookup scope).map Prod.fst).getD 0

theorem Engine.restoredHealth_attempts (attempts : Nat) (healed : Bool) :
    (Engine.restoredHealth attempts healed).attempts = attempts := by
  unfold restoredHealth
  split
  · rfl
  · split <;> rfl

theorem Db.health_attempts (db : Db) (scope : ScopeId) :
    (db.health scope).attempts = db.attempts scope := by
  unfold health attempts
  cases db.divergences.lookup scope with
  | none => rfl
  | some record =>
    obtain ⟨attempts, healed⟩ := record
    simp only [Option.map_some, Option.getD_some]
    split
    · rename_i none
      exact none.symm
    · exact Engine.restoredHealth_attempts attempts healed

theorem Db.health_congr {db db' : Db} {scope : ScopeId}
    (same : db'.divergences.lookup scope = db.divergences.lookup scope) :
    db'.health scope = db.health scope := by
  rw [health, health, same]

theorem Db.health_written {db : Db} {scope : ScopeId} {attempts : Nat} {healed : Bool}
    (written : db.divergences.lookup scope = some (attempts, healed)) (counted : attempts ≠ 0) :
    db.health scope = Engine.restoredHealth attempts healed := by
  rw [health, written]
  exact if_neg counted

/-- A scope that is not trusted has been counted at least once. -/
theorem Db.health_counted {db : Db} {scope : ScopeId}
    (tainted : (db.health scope).needsRebootstrap = true) : (db.health scope).attempts ≠ 0 := by
  unfold health at tainted ⊢
  cases found : db.divergences.lookup scope with
  | none =>
    rw [found] at tainted
    cases tainted
  | some record =>
    rw [found] at tainted
    simp only at tainted ⊢
    split at tainted
    · cases tainted
    · rename_i counted
      rw [if_neg counted, Engine.restoredHealth_attempts]
      exact counted

/-- Memory holds every scope's health as storage does. -/
def Device.HealthMirrors (device : Device) : Prop :=
  ∀ scope, device.engine.scopeHealth scope = device.db.health scope

/-! ### What a call does to it -/

/-- The divergence record an apply is about to write for its scope. -/
def Device.recordOf [Hashing] (device : Device) (faults : Faults) (batch : Batch)
    (compareDigest rebuilding : Bool) : Option (Nat × Bool) :=
  let device := (device.refreshIfSuspect faults batch.scope).2
  match device.plan faults batch compareDigest rebuilding with
  | .ok plan => plan.record (device.engine.scopeHealth batch.scope).attempts
  | .error _ => none

/-- The scope whose history a call forgets. -/
def ClientCall.forgets : ClientCall → Option ScopeId
  | .clearScopeHealth scope => some scope
  | _ => none

/-- Whether a call's transaction would change a stored divergence record. -/
def Device.Records [Hashing] (device : Device) (faults : Faults) : ClientCall → Prop
  | .applyBatch batch => device.recordOf faults batch (!batch.hasMore) false ≠ none
  | .applyBootstrap response =>
      device.recordOf faults response.toBatch (!response.hasMore) true ≠ none
  | .clearScopeHealth scope => device.engine.scopeHealth scope ≠ .healthy
  | _ => False

/-- How a call can move the health of scopes, in memory and in storage. -/
inductive Device.HealthMove (before after : Device) (lost : Prop) : Option ScopeId → Prop where
  | kept (memory : after.engine.health = before.engine.health)
      (stored : after.db.divergences = before.db.divergences) : HealthMove before after lost cleared
  | recorded (scope : ScopeId) (attempts : Nat) (healed : Bool)
      (raised : attempts = saturatingSucc (before.engine.scopeHealth scope).attempts ∧
          healed = false ∧ ((before.engine.scopeHealth scope).isHealthy = true ∨
            (before.engine.scopeHealth scope).needsRebootstrap = true) ∨
        attempts = (before.engine.scopeHealth scope).attempts ∧ healed = true ∧
          (before.engine.scopeHealth scope).needsRebootstrap = true)
      (memory : after.engine.health =
        before.engine.health.insert scope (Engine.restoredHealth attempts healed))
      (stored : after.db.divergences = before.db.divergences.insert scope (attempts, healed)) :
      HealthMove before after lost cleared
  | forgotten (scope : ScopeId) (memory : after.engine.health = Finmap.erase scope before.engine.health)
      (stored : after.db.divergences = before.db.divergences.insert scope (0, false)) :
      HealthMove before after lost (some scope)
  | reclear (scope : ScopeId) (healthy : before.engine.scopeHealth scope = .healthy)
      (memory : after.engine.health = before.engine.health)
      (stored : after.db.divergences = before.db.divergences.insert scope (0, false)) :
      HealthMove before after lost (some scope)
  | unreported (happened : lost) : HealthMove before after lost cleared

/-- Whether an effect reports that a scope is given up. -/
def Telemetry.givesUp (scope : ScopeId) : Telemetry → Bool
  | .scopeUnhealable other _ => other = scope
  | _ => false

/-- A call that leaves every scope's health as it was, and gives none of them up. -/
structure Device.LeavesHealth (before after : Device) : Prop where
  health : after.engine.health = before.engine.health
  divergences : after.db.divergences = before.db.divergences
  reports : ∃ emitted, after.engine.effects = before.engine.effects ++ emitted ∧
    ∀ scope, ∀ effect ∈ emitted, effect.givesUp scope = false

variable {device middle after : Device} {batch : Batch} {plan : Plan}

theorem Device.LeavesHealth.quiet (health : after.engine.health = device.engine.health)
    (divergences : after.db.divergences = device.db.divergences)
    (effects : after.engine.effects = device.engine.effects) : device.LeavesHealth after :=
  ⟨health, divergences, [], by rw [effects, List.append_nil], fun _ _ member => nomatch member⟩

theorem Device.LeavesHealth.trans (first : device.LeavesHealth middle)
    (second : middle.LeavesHealth after) : device.LeavesHealth after := by
  obtain ⟨emitted, effects, quiet⟩ := first.reports
  obtain ⟨emitted', effects', quiet'⟩ := second.reports
  refine ⟨second.health.trans first.health, second.divergences.trans first.divergences,
    emitted ++ emitted', by rw [effects', effects, List.append_assoc], ?_⟩
  intro scope effect member
  rcases List.mem_append.mp member with member | member
  · exact quiet scope effect member
  · exact quiet' scope effect member

theorem Device.LeavesHealth.move {lost : Prop} (leaves : device.LeavesHealth after) :
    device.HealthMove after lost cleared :=
  .kept leaves.health leaves.divergences

section Calls

variable [Hashing]

theorem Device.Plans.divergences (plans : device.Plans batch compareDigest rebuilding plan) :
    (device.db.staged plan.ops).divergences =
      match plan.record (device.engine.scopeHealth batch.scope).attempts with
      | some record => device.db.divergences.insert batch.scope record
      | none => device.db.divergences :=
  congrArg Db.divergences plans.staged

/-- A record counts one divergence more of a scope that was not given up, or heals one
that was tainted. -/
theorem Device.Plans.record_cases (plans : device.Plans batch compareDigest rebuilding plan)
    (recorded : plan.record (device.engine.scopeHealth batch.scope).attempts =
      some (attempts, healed)) :
    attempts = saturatingSucc (device.engine.scopeHealth batch.scope).attempts ∧ healed = false ∧
        ((device.engine.scopeHealth batch.scope).isHealthy = true ∨
          (device.engine.scopeHealth batch.scope).needsRebootstrap = true) ∨
      attempts = (device.engine.scopeHealth batch.scope).attempts ∧ healed = true ∧
        (device.engine.scopeHealth batch.scope).needsRebootstrap = true := by
  have escalated := plans.escalated
  have heals := plans.heals
  unfold Plan.record at recorded
  cases raised : plan.escalated with
  | some count =>
    rw [raised] at recorded escalated
    cases recorded
    split at escalated
    · rename_i condition
      rw [Bool.and_eq_true, Bool.or_eq_true, Bool.and_eq_true] at condition
      exact .inl ⟨Option.some.inj escalated, rfl, condition.2.imp_right And.right⟩
    · cases escalated
  | none =>
    rw [raised] at recorded
    simp only at recorded
    split at recorded
    · rename_i healing
      cases recorded
      rw [healing, eq_comm, Bool.and_eq_true] at heals
      exact .inr ⟨rfl, rfl, heals.2⟩
    · cases recorded

theorem Device.applyChanges_health (device : Device) (faults : Faults) (batch : Batch)
    (compareDigest rebuilding : Bool) :
    device.HealthMove (device.applyChanges faults batch compareDigest rebuilding).2
      (faults.verdict = .commitThenLoseAck ∧
        device.recordOf faults batch compareDigest rebuilding ≠ none) none := by
  obtain ⟨scopes, suspect, same⟩ := device.refreshIfSuspect_eq faults batch.scope
  have health : (device.refreshIfSuspect faults batch.scope).2.engine.health =
      device.engine.health := by rw [same]
  have stored : (device.refreshIfSuspect faults batch.scope).2.db = device.db := by rw [same]
  unfold applyChanges recordOf
  generalize device.refreshIfSuspect faults batch.scope = refreshed at health stored ⊢
  obtain ⟨outcome, fresh⟩ := refreshed
  simp only at health stored
  cases outcome with
  | error e => exact .kept health (congrArg Db.divergences stored)
  | ok =>
    simp only
    cases planned : fresh.plan faults batch compareDigest rebuilding with
    | error e => exact .kept health (congrArg Db.divergences stored)
    | ok plan =>
      have plans := fresh.plan_plans planned
      have written := plans.divergences
      have before : fresh.engine.scopeHealth batch.scope = device.engine.scopeHealth batch.scope := by
        rw [Engine.scopeHealth, health, Engine.scopeHealth]
      obtain ⟨emitted, moved⟩ := Device.advance_eq fresh.engine batch plan
      simp only
      unfold Db.transact
      cases record : plan.record (fresh.engine.scopeHealth batch.scope).attempts with
      | none =>
        rw [record] at written moved
        cases faults.verdict with
        | commit =>
          refine .kept ?_ (written.trans (congrArg Db.divergences stored))
          simp only [moved]
          exact health
        | failBeforeCommit => exact .kept health (congrArg Db.divergences stored)
        | commitThenLoseAck => exact .kept health (written.trans (congrArg Db.divergences stored))
      | some record' =>
        obtain ⟨attempts, healed⟩ := record'
        rw [record] at written moved
        cases verdict : faults.verdict with
        | commit =>
          refine .recorded batch.scope attempts healed ?_ ?_ ?_
          · rw [← before]
            exact plans.record_cases record
          · simp only [moved, recordedHealth, health]
          · exact written.trans (by rw [stored])
        | failBeforeCommit => exact .kept health (congrArg Db.divergences stored)
        | commitThenLoseAck => exact .unreported ⟨rfl, by simp⟩

omit [Hashing] in
theorem Device.beginRebootstrap_health (device : Device) (faults : Faults) (scope : ScopeId) :
    device.LeavesHealth (device.beginRebootstrap faults scope).2 := by
  unfold beginRebootstrap
  obtain ⟨outcome, done⟩ | ⟨e, lost | done⟩ := Db.transact_cases faults device.db
    (device.engine.registry.rebootstrapOps scope)
  · rw [done]
    exact .quiet rfl rfl rfl
  · rw [lost]
    exact .quiet rfl rfl rfl
  · rw [done]
    exact .quiet rfl rfl rfl

omit [Hashing] in
theorem Device.refreshOutboxIfSuspect_health (device : Device) (faults : Faults) :
    device.LeavesHealth (device.refreshOutboxIfSuspect faults).2 := by
  unfold refreshOutboxIfSuspect
  split
  · split <;> exact .quiet rfl rfl rfl
  · exact .quiet rfl rfl rfl

omit [Hashing] in
theorem Device.reloadScope_health (device : Device) (faults : Faults) (scope : ScopeId) :
    device.LeavesHealth (device.reloadScope faults scope).2 := by
  obtain ⟨scopes, suspect, same⟩ := device.refreshIfSuspect_eq faults scope
  unfold reloadScope
  generalize device.refreshIfSuspect faults scope = refreshed at same ⊢
  obtain ⟨_ | _, fresh⟩ := refreshed
  · simp only at same ⊢
    rw [same]
    exact .quiet rfl rfl rfl
  · simp only at same ⊢
    have first : device.LeavesHealth fresh := by
      rw [same]
      exact .quiet rfl rfl rfl
    have second := fresh.refreshOutboxIfSuspect_health faults
    generalize fresh.refreshOutboxIfSuspect faults = outcome at second ⊢
    obtain ⟨_ | _, final⟩ := outcome <;> exact first.trans second

omit [Hashing] in
theorem Device.enqueue_health (device : Device) (faults : Faults) (entry : OutboxEntry) :
    device.LeavesHealth (device.enqueue faults entry).2 := by
  unfold enqueue
  cases device.engine.registry.checkCommand entry.command with
  | error e => exact .quiet rfl rfl rfl
  | ok entity =>
    obtain ⟨outcome, done⟩ | ⟨e, lost | done⟩ := Db.transact_cases faults device.db
      [.enqueueCommand entry.command entry.schemaVersion]
    · rw [done]
      exact .quiet rfl rfl rfl
    · rw [lost]
      exact .quiet rfl rfl rfl
    · rw [done]
      exact .quiet rfl rfl rfl

omit [Hashing] in
/-- Reports of anything else leave every scope's health as it was. -/
theorem Device.emitting_health {Item : Type} (report : Item → Telemetry)
    (quiet : ∀ item scope, (report item).givesUp scope = false) (items : List Item)
    (device : Device) : device.LeavesHealth { device with
      engine := items.foldl (fun engine item => engine.emit (report item)) device.engine } := by
  induction items generalizing device with
  | nil => exact .quiet rfl rfl rfl
  | cons item rest ih =>
    let reported : Device := { device with engine := device.engine.emit (report item) }
    have first : device.LeavesHealth reported := by
      refine ⟨rfl, rfl, [report item], rfl, fun scope effect member => ?_⟩
      rw [List.mem_singleton.mp member]
      exact quiet item scope
    exact first.trans (ih reported)

omit [Hashing] in
theorem Device.buildPush_health (device : Device) (faults : Faults) (compressedLen : Bytes → Nat)
    (protocol : ProtocolVersion) (budgetBytes : Nat) :
    device.LeavesHealth (device.buildPush faults compressedLen protocol budgetBytes).2 := by
  have refreshed := device.refreshOutboxIfSuspect_health faults
  unfold buildPush
  generalize device.refreshOutboxIfSuspect faults = outcome at refreshed ⊢
  obtain ⟨_ | _, fresh⟩ := outcome
  · exact refreshed
  · simp only
    split
    · exact refreshed
    · split
      · exact refreshed
      · exact refreshed.trans (fresh.emitting_health
          (fun held : CommandId × SchemaVersion × String =>
            .commandHeld held.1 held.2.1 held.2.2) (fun _ _ => rfl) _)

omit [Hashing] in
theorem Device.applyResults_health (device : Device) (faults : Faults) (response : PushResponse) :
    device.LeavesHealth (device.applyResults faults response).2 := by
  have refreshed := device.refreshOutboxIfSuspect_health faults
  unfold applyResults
  generalize device.refreshOutboxIfSuspect faults = outcome at refreshed ⊢
  obtain ⟨_ | _, fresh⟩ := outcome
  · exact refreshed
  · simp only at refreshed ⊢
    have only := answering_isOutbox fresh.engine.registry fresh.engine.outbox response.results {}
      fun op member => nomatch member
    obtain ⟨stored, resolved, recovered, enqueued, left⟩ := fresh.db.staged_isOutbox only
    split
    · exact refreshed
    · obtain ⟨outcome, done⟩ | ⟨e, lost | done⟩ := Db.transact_cases faults fresh.db
        (response.results.foldl (answerOne fresh.engine.registry fresh.engine.outbox) {}).ops
      · simp only [done, left]
        exact refreshed.trans (.quiet rfl rfl rfl)
      · rw [lost]
        exact refreshed.trans (.quiet rfl rfl rfl)
      · simp only [done, left]
        exact refreshed.trans (.quiet rfl rfl rfl)

omit [Hashing] in
theorem Device.clearScopeHealth_health (device : Device) (faults : Faults) (scope : ScopeId) :
    device.HealthMove (device.clearScopeHealth faults scope).2
      (faults.verdict = .commitThenLoseAck ∧ device.engine.scopeHealth scope ≠ .healthy)
      (some scope) := by
  unfold clearScopeHealth Db.transact
  cases faults.verdict with
  | commit => exact .forgotten scope rfl rfl
  | failBeforeCommit => exact .kept rfl rfl
  | commitThenLoseAck =>
    by_cases healthy : device.engine.scopeHealth scope = .healthy
    · exact .reclear scope healthy rfl rfl
    · exact .unreported ⟨rfl, healthy⟩

/-- What a call can do to the health of scopes. -/
theorem Device.call_health (device : Device) (faults : Faults) (call : ClientCall) :
    device.HealthMove (device.call faults call)
      (faults.verdict = .commitThenLoseAck ∧ device.Records faults call) call.forgets := by
  cases call with
  | applyBatch batch => exact device.applyChanges_health faults batch _ _
  | applyBootstrap response => exact device.applyChanges_health faults response.toBatch _ _
  | beginRebootstrap scope => exact (device.beginRebootstrap_health faults scope).move
  | reloadScope scope => exact (device.reloadScope_health faults scope).move
  | clearScopeHealth scope => exact device.clearScopeHealth_health faults scope
  | enqueue entry => exact (device.enqueue_health faults entry).move
  | buildPush compressedLen protocol budgetBytes =>
    exact (device.buildPush_health faults compressedLen protocol budgetBytes).move
  | applyResults response => exact (device.applyResults_health faults response).move

end Calls

/-! ### Restarts -/

private theorem restoreScopeHealth_health (engine : Engine) (scope other : ScopeId)
    (attempts : Nat) (healed : Bool) :
    (engine.restoreScopeHealth scope attempts healed).scopeHealth other =
      if other = scope then if attempts = 0 then .healthy else Engine.restoredHealth attempts healed
      else engine.scopeHealth other := by
  unfold Engine.restoreScopeHealth Engine.scopeHealth
  by_cases here : other = scope
  · subst here
    split <;> simp [Finmap.lookup_erase]
  · split
    · simp [Finmap.lookup_erase_ne here]
    · simp [here]

private theorem restoreFrom_health (db : Db) (engine : Engine) (first scope : ScopeId) :
    (Device.restoreFrom db engine first).scopeHealth scope =
      if scope = first ∧ db.divergences.lookup scope ≠ none then db.health scope
      else engine.scopeHealth scope := by
  unfold Device.restoreFrom
  cases found : db.divergences.lookup first with
  | none =>
    rw [if_neg (by rintro ⟨rfl, recorded⟩; exact recorded found)]
    cases db.stored first <;> rfl
  | some record =>
    obtain ⟨attempts, healed⟩ := record
    refine (restoreScopeHealth_health _ first scope attempts healed).trans ?_
    by_cases here : scope = first
    · subst here
      have recorded : db.divergences.lookup scope ≠ none := by
        rw [found]
        exact Option.some_ne_none _
      rw [if_pos rfl, if_pos (And.intro (Eq.refl scope) recorded), Db.health, found]
    · rw [if_neg here, if_neg fun both => here both.1]
      cases db.stored first <;> rfl

/-- Whether a list has every scope that storage knows something of. -/
def Db.Lists (db : Db) (scopes : List ScopeId) : Prop :=
  (∀ scope ∈ db.cursors.keys, scope ∈ scopes) ∧ ∀ scope ∈ db.divergences.keys, scope ∈ scopes

instance (db : Db) : DecidablePred db.Lists := fun scopes =>
  inferInstanceAs (Decidable ((∀ scope ∈ db.cursors.keys, scope ∈ scopes) ∧
    ∀ scope ∈ db.divergences.keys, scope ∈ scopes))

theorem Db.Lists.stored {db : Db} (listed : db.Lists scopes) :
    ∀ scope, db.stored scope ≠ none → scope ∈ scopes := by
  intro scope known
  apply listed.1
  rw [Finmap.mem_keys, Finmap.mem_iff]
  apply Option.ne_none_iff_exists'.mp
  intro absent
  exact known (by rw [Db.stored, absent]; rfl)

theorem Db.Lists.recorded {db : Db} (listed : db.Lists scopes) :
    ∀ scope, db.divergences.lookup scope ≠ none → scope ∈ scopes := by
  intro scope known
  apply listed.2
  rw [Finmap.mem_keys, Finmap.mem_iff]
  exact Option.ne_none_iff_exists'.mp known

theorem Device.restart_health (registry : Registry) (migrations : Migrations)
    {scopes : List ScopeId} {db : Db} (listed : db.Lists scopes) :
    (Device.restart registry migrations scopes db).HealthMirrors := by
  intro scope
  change (scopes.foldl (Device.restoreFrom db) { registry, migrations }).scopeHealth scope =
    db.health scope
  have unrecorded : db.divergences.lookup scope = none → db.health scope = .healthy := by
    intro absent
    rw [Db.health, absent]
  refine Device.foldl_restoreFrom scope (·.scopeHealth scope) (db.health scope) .healthy
    (fun engine held => ?_) (fun engine other different => ?_) ?_
  · rw [restoreFrom_health]
    by_cases recorded : db.divergences.lookup scope = none
    · rw [if_neg fun both => both.2 recorded]
      rw [unrecorded recorded] at held ⊢
      exact held.elim id id
    · exact if_pos ⟨rfl, recorded⟩
  · rw [restoreFrom_health, if_neg fun both => different both.1.symm]
  · by_cases recorded : db.divergences.lookup scope = none
    · exact .inl (unrecorded recorded).symm
    · exact .inr ⟨listed.recorded scope recorded, rfl⟩

/-! ### Runs -/

section Moves

variable {lost : Prop} {cleared : Option ScopeId} {scope : ScopeId}

theorem saturatingSucc_pos (n : Nat) : saturatingSucc n ≠ 0 := by
  unfold saturatingSucc Limits.u32Max
  omega

theorem le_saturatingSucc {n : Nat} (bounded : n ≤ Limits.u32Max) : n ≤ saturatingSucc n := by
  unfold saturatingSucc
  omega

theorem Db.attempts_written {db db' : Db} {record : Nat × Bool} {scope other : ScopeId}
    (stored : db'.divergences = db.divergences.insert scope record) :
    db'.attempts other = if other = scope then record.1 else db.attempts other := by
  rw [attempts, stored, Table.lookup_insert_if]
  split <;> rfl

/-- Unless the report of a record is lost, memory follows storage. -/
theorem Device.HealthMove.mirrors (moves : device.HealthMove after lost cleared) (kept : ¬ lost)
    (mirrors : device.HealthMirrors) : after.HealthMirrors := by
  intro other
  have elsewhere : ∀ scope record, other ≠ scope →
      after.db.divergences = device.db.divergences.insert scope record →
      after.db.health other = device.db.health other := by
    intro scope record different stored
    apply Db.health_congr
    rw [stored, Finmap.lookup_insert_of_ne _ different]
  cases moves with
  | kept memory stored =>
    have same : after.db.health other = device.db.health other := Db.health_congr (by rw [stored])
    rw [same, ← mirrors other]
    simp only [Engine.scopeHealth, memory]
  | recorded scope attempts healed raised memory stored =>
    by_cases here : other = scope
    · subst here
      have counted : attempts ≠ 0 := by
        rcases raised with ⟨rfl, _, _⟩ | ⟨rfl, _, tainted⟩
        · exact saturatingSucc_pos _
        · rw [mirrors other] at tainted ⊢
          exact Db.health_counted tainted
      rw [Db.health_written (by rw [stored, Finmap.lookup_insert]) counted]
      simp [Engine.scopeHealth, memory]
    · rw [elsewhere scope _ here stored, ← mirrors other]
      simp [Engine.scopeHealth, memory, here]
  | forgotten scope memory stored =>
    by_cases here : other = scope
    · subst here
      simp [Engine.scopeHealth, memory, Db.health, stored, Finmap.lookup_erase]
    · rw [elsewhere scope _ here stored, ← mirrors other]
      simp [Engine.scopeHealth, memory, Finmap.lookup_erase_ne here]
  | reclear scope healthy memory stored =>
    have same : after.engine.scopeHealth other = device.engine.scopeHealth other := by
      simp only [Engine.scopeHealth, memory]
    by_cases here : other = scope
    · subst here
      rw [same, healthy, Db.health, stored, Finmap.lookup_insert]
      rfl
    · rw [same, elsewhere scope _ here stored, mirrors other]
  | unreported happened => exact absurd happened kept

/-- The stored count is a `u32`, and falls only when a history is forgotten. -/
theorem Device.HealthMove.attempts (moves : device.HealthMove after lost cleared) (kept : ¬ lost)
    (mirrors : device.HealthMirrors) (bounded : device.db.attempts scope ≤ Limits.u32Max) :
    after.db.attempts scope ≤ Limits.u32Max ∧
      (cleared ≠ some scope → device.db.attempts scope ≤ after.db.attempts scope) := by
  cases moves with
  | kept memory stored =>
    have same : after.db.attempts scope = device.db.attempts scope := by
      rw [Db.attempts, stored, Db.attempts]
    rw [same]
    exact ⟨bounded, fun _ => le_rfl⟩
  | recorded other attempts healed raised memory stored =>
    rw [Db.attempts_written stored]
    split
    · rename_i here
      subst here
      rw [mirrors scope, Db.health_attempts] at raised
      rcases raised with ⟨rfl, _, _⟩ | ⟨rfl, _, _⟩
      · exact ⟨Nat.min_le_right _ _, fun _ => le_saturatingSucc bounded⟩
      · exact ⟨bounded, fun _ => le_rfl⟩
    · exact ⟨bounded, fun _ => le_rfl⟩
  | forgotten other memory stored | reclear other _ memory stored =>
    rw [Db.attempts_written stored]
    split
    · rename_i here
      exact ⟨Nat.zero_le _, fun remembered => absurd (congrArg some here.symm) remembered⟩
    · exact ⟨bounded, fun _ => le_rfl⟩
  | unreported happened => exact absurd happened kept

end Moves

/-- The scope whose history an event forgets. -/
def ClientEvent.forgets : ClientEvent → Option ScopeId
  | .call _ made => made.forgets
  | .restart .. => none

/-- A restart restores every scope that storage knows. -/
def Device.Restores (device : Device) : ClientEvent → Prop
  | .restart _ _ scopes => device.db.Lists scopes
  | .call .. => True

instance (device : Device) : DecidablePred device.Restores
  | .restart _ _ scopes => inferInstanceAs (Decidable (device.db.Lists scopes))
  | .call .. => isTrue trivial

section Runs

variable [Hashing]

instance (device : Device) (faults : Faults) : DecidablePred (device.Records faults)
  | .applyBatch batch =>
    inferInstanceAs (Decidable (device.recordOf faults batch (!batch.hasMore) false ≠ none))
  | .applyBootstrap response => inferInstanceAs
      (Decidable (device.recordOf faults response.toBatch (!response.hasMore) true ≠ none))
  | .clearScopeHealth scope =>
    inferInstanceAs (Decidable (device.engine.scopeHealth scope ≠ .healthy))
  | .beginRebootstrap _ | .reloadScope _ | .enqueue _ | .buildPush .. | .applyResults _ =>
    isFalse id

/-- Calls, whatever storage does to them, and restarts that restore everything. -/
def Device.Resumes : Device → ClientEvent → Device → Prop :=
  Transition.Guarded Device.Reacts Device.Restores

/-- No divergence record is committed and reported as failed. -/
def Device.Acknowledges (device : Device) : ClientEvent → Prop
  | .call faults call => faults.verdict = .commitThenLoseAck → ¬ device.Records faults call
  | .restart .. => True

instance (device : Device) : DecidablePred device.Acknowledges
  | .call faults call =>
    inferInstanceAs (Decidable (faults.verdict = .commitThenLoseAck → ¬ device.Records faults call))
  | .restart .. => isTrue trivial

/-- Memory holds every scope's health, and every stored count is a `u32`. -/
structure Device.Accounts (device : Device) : Prop where
  mirrors : device.HealthMirrors
  bounded : ∀ scope, device.db.attempts scope ≤ Limits.u32Max

theorem Device.Accounts.event {event : ClientEvent} (accounts : device.Accounts)
    (step : Transition.Guarded Device.Resumes Device.Acknowledges device event after) :
    after.Accounts ∧ ∀ scope, event.forgets ≠ some scope →
      device.db.attempts scope ≤ after.db.attempts scope := by
  obtain ⟨acknowledged, restores, rfl⟩ := step
  cases event with
  | call faults call =>
    have moves := device.call_health faults call
    have kept : ¬ (faults.verdict = .commitThenLoseAck ∧ device.Records faults call) :=
      fun lost => acknowledged lost.1 lost.2
    have counts := fun scope => moves.attempts kept accounts.mirrors (accounts.bounded scope)
    exact ⟨⟨moves.mirrors kept accounts.mirrors, fun scope => (counts scope).1⟩,
      fun scope => (counts scope).2⟩
  | restart registry migrations scopes =>
    exact ⟨⟨Device.restart_health registry migrations restores, accounts.bounded⟩,
      fun _ _ => le_rfl⟩

theorem Device.Accounts.run (accounts : device.Accounts)
    (run : Transition.Run (Transition.Guarded Device.Resumes Device.Acknowledges)
      device events after) :
    after.Accounts ∧ ∀ scope, (∀ event ∈ events, ClientEvent.forgets event ≠ some scope) →
      device.db.attempts scope ≤ after.db.attempts scope := by
  induction run with
  | done => exact ⟨accounts, fun _ _ => le_rfl⟩
  | next taken _ ih =>
    obtain ⟨middle, grows⟩ := accounts.event taken
    obtain ⟨final, others⟩ := ih middle
    refine ⟨final, fun scope remembered => (grows scope (remembered _ List.mem_cons_self)).trans ?_⟩
    exact others scope fun event member => remembered event (List.mem_cons_of_mem _ member)

/-- While no divergence record is committed and reported as failed, memory and storage
agree on the health of every scope that is not suspect, and a stored count falls only
when the scope's history is forgotten. -/
theorem health_agrees_with_storage (registry : Registry) (migrations : Migrations)
    (scopes : List ScopeId) (db : Db) (events later : List ClientEvent) (middle device : Device)
    (listed : db.Lists scopes) (bounded : ∀ scope, db.attempts scope ≤ Limits.u32Max)
    (run : Transition.Run (Transition.Guarded Device.Resumes Device.Acknowledges)
      (Device.restart registry migrations scopes db) events middle)
    (rest : Transition.Run (Transition.Guarded Device.Resumes Device.Acknowledges)
      middle later device) :
    (∀ scope ∉ device.engine.suspect, device.engine.scopeHealth scope = device.db.health scope) ∧
      ∀ scope, (∀ event ∈ later, event.forgets ≠ some scope) →
        middle.db.attempts scope ≤ device.db.attempts scope := by
  have start : (Device.restart registry migrations scopes db).Accounts :=
    ⟨Device.restart_health registry migrations listed, bounded⟩
  obtain ⟨accounts, grows⟩ := (start.run run).1.run rest
  exact ⟨fun scope _ => accounts.mirrors scope, grows⟩

end Runs

namespace Sample

attribute [local instance] noteHashes

/-- A batch whose digest is that of no rows. -/
def wrongNote : Batch := lone noteB 2 ScopeDigest.empty

/-- A batch that agrees is committed and reported as failed; then one that disagrees
is committed, and the app restarts. -/
def tainting : List ClientEvent :=
  [.call { verdict := .commitThenLoseAck } (.applyBatch firstNote),
    .call .none (.applyBatch wrongNote), .restart notes Migrations.new [scope]]

theorem tainting_agrees : ∃ device,
    Transition.Run (Transition.Guarded Device.Resumes Device.Acknowledges)
      (Device.restart notes Migrations.new [scope] {}) tainting device ∧
    device.db.attempts scope = 1 ∧ device.engine.scopeHealth scope = device.db.health scope := by
  have followed : (Transition.follow
      (fun device event => decide (device.Acknowledges event ∧ device.Restores event))
      (fun device event => some (Device.react device event))
      (Device.restart notes Migrations.new [scope] {}) tainting).any (fun device =>
        decide (device.db.attempts scope = 1 ∧ scope ∉ device.engine.suspect)) = true := by
    decide +kernel
  have taken : ∀ (before : Device) (event : ClientEvent) after,
      decide (before.Acknowledges event ∧ before.Restores event) = true →
      some (before.react event) = some after →
      Transition.Guarded Device.Resumes Device.Acknowledges before event after :=
    fun _ _ _ allowed goes =>
      ⟨(of_decide_eq_true allowed).1, (of_decide_eq_true allowed).2, (Option.some.inj goes).symm⟩
  obtain ⟨device, run, test⟩ := Transition.Run.of_follow_any taken followed
  obtain ⟨counted, trusted⟩ := of_decide_eq_true test
  refine ⟨device, run, counted, ?_⟩
  exact (health_agrees_with_storage notes Migrations.new [scope] {} tainting [] device device
    ⟨by decide, by decide⟩ (fun _ => Nat.zero_le _) run .done).1 scope trusted

/-- The divergence is recorded and reported as failed; then the scope is reloaded. -/
def reloaded : List ClientEvent :=
  [.call { verdict := .commitThenLoseAck } (.applyBatch wrongNote),
    .call .none (.reloadScope scope)]

/-- Memory takes the scope for healthy, where a restart would find it tainted. -/
theorem reloaded_disagrees : ∃ device,
    Transition.Run Device.Resumes (Device.restart notes Migrations.new [scope] {}) reloaded device ∧
    scope ∉ device.engine.suspect ∧ device.engine.scopeHealth scope = .healthy ∧
    device.db.health scope = .tainted 1 := by
  have followed : (Transition.follow (fun device event => decide (device.Restores event))
      (fun device event => some (Device.react device event))
      (Device.restart notes Migrations.new [scope] {}) reloaded).any (fun device =>
        decide (scope ∉ device.engine.suspect ∧ device.engine.scopeHealth scope = .healthy ∧
          device.db.health scope = .tainted 1)) = true := by
    decide +kernel
  have taken : ∀ (before : Device) (event : ClientEvent) after,
      decide (before.Restores event) = true → some (before.react event) = some after →
      Device.Resumes before event after :=
    fun _ _ _ allowed goes => ⟨of_decide_eq_true allowed, (Option.some.inj goes).symm⟩
  obtain ⟨device, run, test⟩ := Transition.Run.of_follow_any taken followed
  exact ⟨device, run, of_decide_eq_true test⟩

end Sample

end CredSync
