import CredSync.Core.Health

/-! How divergences of a scope add up. Over storage that reports what it did, the
attempt count rises by one for each divergence that ends a walk of a trusted scope or
a rebuild of a tainted one, and at the limit the scope is given up until its history
is forgotten. -/

namespace CredSync

/-- Whether storage commits and reports it, or fails before it commits. -/
def Device.Truthful (_ : Device) : ClientEvent → Prop
  | .call faults _ => faults.verdict ≠ .commitThenLoseAck
  | .restart .. => True

instance (device : Device) : DecidablePred device.Truthful
  | .call faults _ => inferInstanceAs (Decidable (faults.verdict ≠ .commitThenLoseAck))
  | .restart .. => isTrue trivial

/-- The walk a call ends: its scope, the server's digest, and whether it was a rebuild. -/
def ClientCall.ends : ClientCall → Option (ScopeId × HexString × Bool)
  | .applyBatch batch => if batch.hasMore then none else some (batch.scope, batch.digest, false)
  | .applyBootstrap response =>
      if response.hasMore then none else some (response.scope, response.digest, true)
  | _ => none

/-- Every scope waiting to be re-bootstrapped. -/
def Engine.scopesNeedingRebootstrap (engine : Engine) : Finset ScopeId :=
  engine.health.keys.filter fun scope => (engine.scopeHealth scope).needsRebootstrap

section Judged

variable [Hashing]

/-- Whether an event commits the final batch or page of a walk of a scope, and whether
the digest that is stored with it is the server's. -/
def Device.Judges (device : Device) (event : ClientEvent) (scope : ScopeId)
    (rebuilding agrees : Bool) : Prop :=
  ∃ faults call digest, event = .call faults call ∧
    call.ends = some (scope, digest, rebuilding) ∧ (device.reply faults call).isOk = true ∧
    (agrees = true ↔ (device.call faults call).db.storedDigest scope = digest)

/-- Whether an event is a divergence that counts. -/
def Device.Counts (device : Device) (event : ClientEvent) (scope : ScopeId) : Prop :=
  ∃ rebuilding, device.Judges event scope rebuilding false ∧
    ((device.engine.scopeHealth scope).isHealthy = true ∨
      rebuilding = true ∧ (device.engine.scopeHealth scope).needsRebootstrap = true)

/-- Whether an event forgets the history of a scope. -/
def Device.Forgets (device : Device) (event : ClientEvent) (scope : ScopeId) : Prop :=
  ∃ faults, event = .call faults (.clearScopeHealth scope) ∧
    (device.reply faults (.clearScopeHealth scope)).isOk = true

end Judged

/-- The health an attempt count leaves possible: at the limit a scope is unhealable,
below it it is not. -/
def ScopeHealth.Graded : ScopeHealth → Prop
  | .healthy => True
  | .tainted attempts | .healed attempts => 0 < attempts ∧ attempts < Engine.maxHealAttempts
  | .unhealable attempts => attempts = Engine.maxHealAttempts

/-- What one event does to a scope's health, in every respect. -/
structure Device.Escalates [Hashing] (before : Device) (event : ClientEvent) (after : Device)
    (scope : ScopeId) : Prop where
  counts : before.Counts event scope →
    (after.engine.scopeHealth scope).attempts = (before.engine.scopeHealth scope).attempts + 1
  rests : ¬ before.Counts event scope → ¬ before.Forgets event scope →
    (after.engine.scopeHealth scope).attempts = (before.engine.scopeHealth scope).attempts
  forgets : before.Forgets event scope → after.engine.scopeHealth scope = .healthy
  stays : ∀ attempts, before.engine.scopeHealth scope = .unhealable attempts →
    ¬ before.Forgets event scope → after.engine.scopeHealth scope = .unhealable attempts
  heals : ∀ rebuilding attempts, before.Judges event scope rebuilding true →
    before.engine.scopeHealth scope = .tainted attempts →
    after.engine.scopeHealth scope = .healed attempts
  reports : ∀ faults call, event = .call faults call →
    ∃ emitted, after.engine.effects = before.engine.effects ++ emitted ∧
      (before.Counts event scope ∧
          Engine.maxHealAttempts ≤ (after.engine.scopeHealth scope).attempts →
        emitted.filter (·.givesUp scope) =
          [.scopeUnhealable scope (after.engine.scopeHealth scope).attempts]) ∧
      (¬ (before.Counts event scope ∧
          Engine.maxHealAttempts ≤ (after.engine.scopeHealth scope).attempts) →
        emitted.filter (·.givesUp scope) = [])

/-! ### One apply -/

/-- Reports that give no scope up leave nothing behind the filter for one. -/
theorem Device.LeavesHealth.silent {device after : Device} (leaves : device.LeavesHealth after) :
    ∃ emitted, after.engine.effects = device.engine.effects ++ emitted ∧
      ∀ scope, emitted.filter (·.givesUp scope) = [] := by
  obtain ⟨emitted, effects, quiet⟩ := leaves.reports
  refine ⟨emitted, effects, fun scope => ?_⟩
  apply List.filter_eq_nil_iff.mpr
  intro effect member
  simp [quiet scope effect member]

/-- What a committed batch reports of the scopes that are given up. -/
theorem Device.advance_reports (engine : Engine) (batch : Batch) (plan : Plan) :
    ∃ emitted, (advance engine batch plan).effects = engine.effects ++ emitted ∧
      ∀ scope, emitted.filter (·.givesUp scope) =
        plan.escalated.elim [] fun attempts =>
          if scope = batch.scope ∧ Engine.maxHealAttempts ≤ attempts then
            [.scopeUnhealable scope attempts]
          else [] := by
  let restored : Device := ⟨engine.restoreScope batch.scope ⟨batch.nextCursor, plan.digest⟩, {}⟩
  obtain ⟨emitted, effects, silent⟩ := (restored.emitting_health
    (fun row : RowKey × SchemaVersion × String => .rowQuarantined row.1 row.2.1 row.2.2)
    (fun _ _ => rfl) plan.quarantined).silent
  let reported := plan.quarantined.foldl (fun (engine : Engine) row =>
    engine.emit (.rowQuarantined row.1 row.2.1 row.2.2)) restored.engine
  have effects : reported.effects = engine.effects ++ emitted := effects
  unfold advance
  cases raised : plan.escalated with
  | none =>
    refine ⟨emitted, ?_, silent⟩
    simp only
    split <;> exact effects
  | some attempts =>
    let diverged := Telemetry.scopeDiverged batch.scope plan.digest.toHex batch.digest
    simp only [Engine.taint]
    split
    · rename_i limit
      refine ⟨emitted ++ [diverged, .scopeUnhealable batch.scope attempts], ?_, fun scope => ?_⟩
      · change reported.effects ++ [diverged] ++ [.scopeUnhealable batch.scope attempts] = _
        simp [effects]
      · rw [List.filter_append, silent, List.nil_append]
        by_cases here : scope = batch.scope
        · subst here
          simp [diverged, Telemetry.givesUp, limit]
        · simp [diverged, Telemetry.givesUp, here, Ne.symm here]
    · rename_i below
      refine ⟨emitted ++ [diverged], ?_, fun scope => ?_⟩
      · change reported.effects ++ [diverged] = _
        simp [effects]
      · rw [List.filter_append, silent, List.nil_append, Option.elim_some,
          if_neg fun both => below both.2]
        rfl

section Applies

variable [Hashing] {device after fresh : Device} {batch : Batch} {plan : Plan} {scope : ScopeId}
  {faults : Faults} {call : ClientCall} {rebuilding : Bool}

/-- An event that counts nothing, forgets nothing and heals nothing. -/
theorem Device.Escalates.quiet {event : ClientEvent} (uncounted : ¬ device.Counts event scope)
    (remembered : ¬ device.Forgets event scope)
    (unhealed : ∀ rebuilding attempts, device.Judges event scope rebuilding true →
      device.engine.scopeHealth scope ≠ .tainted attempts)
    (same : after.engine.scopeHealth scope = device.engine.scopeHealth scope)
    (silent : ∀ faults call, event = .call faults call →
      ∃ emitted, after.engine.effects = device.engine.effects ++ emitted ∧
        emitted.filter (·.givesUp scope) = []) : device.Escalates event after scope where
  counts := fun counted => absurd counted uncounted
  rests := fun _ _ => congrArg ScopeHealth.attempts same
  forgets := fun forgotten => absurd forgotten remembered
  stays := fun _ unhealable _ => same.trans unhealable
  heals := fun _ _ judged tainted => absurd tainted (unhealed _ _ judged)
  reports := fun faults call made => by
    obtain ⟨emitted, effects, nothing⟩ := silent faults call made
    exact ⟨emitted, effects, fun counted => absurd counted.1 uncounted, fun _ => nothing⟩

theorem Device.judges_call : device.Judges (.call faults call) scope rebuilding agrees ↔
    ∃ digest, call.ends = some (scope, digest, rebuilding) ∧
      (device.reply faults call).isOk = true ∧
      (agrees = true ↔ (device.call faults call).db.storedDigest scope = digest) := by
  constructor
  · rintro ⟨_, _, digest, same, judged⟩
    cases same
    exact ⟨digest, judged⟩
  · rintro ⟨digest, judged⟩
    exact ⟨faults, call, digest, rfl, judged⟩

/-- A call that ends no walk judges no scope. -/
theorem Device.not_judges (endless : call.ends = none) :
    ¬ device.Judges (.call faults call) scope rebuilding agrees := by
  rw [judges_call]
  rintro ⟨digest, ends, _⟩
  rw [endless] at ends
  cases ends

omit [Hashing] in
/-- A scope that can still count a divergence has not reached the limit. -/
theorem ScopeHealth.Graded.below {health : ScopeHealth} (graded : health.Graded)
    (counts : health.isHealthy = true ∨ health.needsRebootstrap = true) :
    health.attempts < Engine.maxHealAttempts := by
  cases health with
  | healthy => decide
  | tainted attempts | healed attempts => exact graded.2
  | unhealable attempts => simp [isHealthy, needsRebootstrap] at counts

omit [Hashing] in
theorem ScopeHealth.Graded.next {health : ScopeHealth} (graded : health.Graded)
    (counts : health.isHealthy = true ∨ health.needsRebootstrap = true) :
    saturatingSucc health.attempts = health.attempts + 1 := by
  have limit := graded.below counts
  unfold Engine.maxHealAttempts at limit
  unfold saturatingSucc Limits.u32Max
  omega

/-- A batch or page that commits, judged or not. -/
theorem Device.committed_escalates (graded : (device.engine.scopeHealth scope).Graded)
    (health : fresh.engine.health = device.engine.health)
    (effects : fresh.engine.effects = device.engine.effects)
    (plans : fresh.Plans batch (!batch.hasMore) rebuilding plan)
    (moved : device.call faults call =
      ⟨advance fresh.engine batch plan, fresh.db.staged plan.ops⟩)
    (replied : (device.reply faults call).isOk = true)
    (ends : call.ends =
      if batch.hasMore then none else some (batch.scope, batch.digest, rebuilding))
    (remembers : ∀ scope, call ≠ .clearScopeHealth scope) :
    device.Escalates (.call faults call) (device.call faults call) scope := by
  have held : ∀ other, fresh.engine.scopeHealth other = device.engine.scopeHealth other :=
    fun other => by rw [Engine.scopeHealth, health, Engine.scopeHealth]
  have stored : (fresh.db.staged plan.ops).storedDigest batch.scope = plan.digest.toHex :=
    Db.storedDigest_written (by rw [plans.cursors, Finmap.lookup_insert])
      (by rw [plans.digests, Finmap.lookup_insert])
  have judges : ∀ again agrees, device.Judges (.call faults call) scope again agrees ↔
      batch.hasMore = false ∧ batch.scope = scope ∧ rebuilding = again ∧
        (agrees = true ↔ plan.diverged = false) := by
    intro again agrees
    have diverged := plans.diverged
    rw [judges_call, ends, moved]
    cases more : batch.hasMore with
    | true =>
      constructor
      · rintro ⟨digest, impossible, _⟩
        cases impossible
      · rintro ⟨impossible, _⟩
        cases impossible
    | false =>
      rw [more, Bool.not_false, Bool.true_and] at diverged
      have agreement : plan.diverged = false ↔ plan.digest.toHex = batch.digest := by
        rw [diverged, decide_eq_false_iff_not, not_not]
      constructor
      · rintro ⟨digest, ended, _, judged⟩
        cases ended
        exact ⟨rfl, rfl, rfl, judged.trans (by rw [stored, agreement])⟩
      · rintro ⟨_, rfl, rfl, judged⟩
        exact ⟨batch.digest, rfl, replied, judged.trans (by rw [stored, agreement])⟩
  have remembered : ¬ device.Forgets (.call faults call) scope := by
    rintro ⟨_, same, _⟩
    cases same
    exact remembers scope rfl
  obtain ⟨emitted, reported, filtered⟩ := Device.advance_reports fresh.engine batch plan
  have reports : ∀ faults' call', ClientEvent.call faults call = .call faults' call' →
      (device.call faults call).engine.effects = device.engine.effects ++ emitted := by
    intro _ _ _
    rw [moved, ← effects]
    exact reported
  have after := Device.advance_health fresh.engine batch plan scope
  rw [held] at after
  have escalated := plans.escalated
  have heals := plans.heals
  rw [held] at escalated heals
  have final : plan.diverged = true → batch.hasMore = false := by
    intro diverged
    have compared := plans.diverged
    rw [diverged, eq_comm, Bool.and_eq_true, Bool.not_eq_true'] at compared
    exact compared.1
  by_cases here : scope = batch.scope
  · subst here
    rw [if_pos rfl, Plan.record] at after
    cases raised : plan.escalated with
    | some attempts =>
      rw [raised] at after escalated
      split at escalated
      · rename_i condition
        rw [Bool.and_eq_true, Bool.or_eq_true, Bool.and_eq_true] at condition
        obtain ⟨diverged, trusted⟩ := condition
        have next : attempts = (device.engine.scopeHealth batch.scope).attempts + 1 :=
          (Option.some.inj escalated).trans (graded.next (trusted.imp_right And.right))
        have reached : (device.call faults call).engine.scopeHealth batch.scope =
            Engine.restoredHealth attempts false := by
          rw [moved]
          exact after
        have filtered := filtered batch.scope
        rw [raised] at filtered
        have counted : device.Counts (.call faults call) batch.scope :=
          ⟨rebuilding, (judges _ _).mpr ⟨final diverged, rfl, rfl, by simp [diverged]⟩, trusted⟩
        constructor
        · intro _
          rw [reached, Engine.restoredHealth_attempts, next]
        · intro uncounted
          exact absurd counted uncounted
        · intro forgotten
          exact absurd forgotten remembered
        · intro _ unhealable
          rw [unhealable] at trusted
          simp [ScopeHealth.isHealthy, ScopeHealth.needsRebootstrap] at trusted
        · intro again _ judged
          have agreed := ((judges again true).mp judged).2.2.2.mp rfl
          rw [diverged] at agreed
          cases agreed
        · intro faults' call' same
          refine ⟨emitted, reports faults' call' same, fun both => ?_, fun neither => ?_⟩
          · rw [reached, Engine.restoredHealth_attempts] at both ⊢
            rw [filtered]
            exact if_pos ⟨rfl, both.2⟩
          · rw [reached, Engine.restoredHealth_attempts] at neither
            rw [filtered]
            exact if_neg fun limit => neither ⟨counted, limit.2⟩
      · cases escalated
    | none =>
      rw [raised] at after escalated
      have uncounted : ¬ device.Counts (.call faults call) batch.scope := by
        rintro ⟨again, judged, trusted⟩
        obtain ⟨_, _, rfl, disagreed⟩ := (judges again false).mp judged
        have diverged : plan.diverged = true := by simpa using disagreed
        rw [if_pos (by simpa [diverged] using trusted)] at escalated
        cases escalated
      have silent : ∀ faults' call', ClientEvent.call faults call = .call faults' call' →
          ∃ emitted, (device.call faults call).engine.effects = device.engine.effects ++ emitted ∧
            emitted.filter (·.givesUp batch.scope) = [] := by
        intro faults' call' same
        refine ⟨emitted, reports faults' call' same, ?_⟩
        rw [filtered, raised, Option.elim_none]
      cases healing : plan.heals with
      | true =>
        have reached : (device.call faults call).engine.scopeHealth batch.scope =
            .healed (device.engine.scopeHealth batch.scope).attempts := by
          rw [moved]
          simpa [healing, Engine.restoredHealth] using after
        rw [healing, eq_comm, Bool.and_eq_true] at heals
        constructor
        · intro counted
          exact absurd counted uncounted
        · intro _ _
          rw [reached]
          rfl
        · intro forgotten
          exact absurd forgotten remembered
        · intro _ unhealable
          rw [unhealable] at heals
          cases heals.2
        · intro _ _ _ tainted
          rw [reached, tainted]
          rfl
        · intro faults' call' same
          obtain ⟨emitted, effects, nothing⟩ := silent faults' call' same
          exact ⟨emitted, effects, fun counted => absurd counted.1 uncounted, fun _ => nothing⟩
      | false =>
        apply Escalates.quiet uncounted remembered
        · intro again attempts judged tainted
          obtain ⟨more, _, _, agreed⟩ := (judges again true).mp judged
          rw [healing, more, agreed.mp rfl, tainted] at heals
          cases heals
        · rw [moved]
          simpa [healing] using after
        · exact silent
  · rw [if_neg here] at after
    have unjudged : ∀ again agrees, ¬ device.Judges (.call faults call) scope again agrees := by
      intro again agrees judged
      exact here ((judges again agrees).mp judged).2.1.symm
    apply Escalates.quiet
    · rintro ⟨again, judged, _⟩
      exact unjudged again false judged
    · exact remembered
    · intro again attempts judged
      exact absurd judged (unjudged again true)
    · rw [moved]
      exact after
    · intro faults' call' same
      refine ⟨emitted, reports faults' call' same, ?_⟩
      rw [filtered]
      cases plan.escalated with
      | some attempts => exact if_neg fun both => here both.1
      | none => rfl

/-- An apply escalates its scope as it should, and no other. -/
theorem Device.applyChanges_escalates (graded : (device.engine.scopeHealth scope).Graded)
    (moved : device.call faults call =
      (device.applyChanges faults batch (!batch.hasMore) rebuilding).2)
    (replied : device.reply faults call =
      .applied (device.applyChanges faults batch (!batch.hasMore) rebuilding).1)
    (ends : call.ends =
      if batch.hasMore then none else some (batch.scope, batch.digest, rebuilding))
    (remembers : ∀ scope, call ≠ .clearScopeHealth scope) :
    device.Escalates (.call faults call) (device.call faults call) scope := by
  obtain ⟨scopes, suspect, same⟩ := device.refreshIfSuspect_eq faults batch.scope
  have health : (device.refreshIfSuspect faults batch.scope).2.engine.health =
      device.engine.health := by rw [same]
  have effects : (device.refreshIfSuspect faults batch.scope).2.engine.effects =
      device.engine.effects := by rw [same]
  have failed : ∀ e, device.reply faults call = .applied (.error e) →
      (device.call faults call).engine.health = device.engine.health →
      (device.call faults call).engine.effects = device.engine.effects →
      device.Escalates (.call faults call) (device.call faults call) scope := by
    intro e refused kept nothing
    have unjudged : ∀ again agrees, ¬ device.Judges (.call faults call) scope again agrees := by
      intro again agrees judged
      obtain ⟨_, _, ok, _⟩ := judges_call.mp judged
      rw [refused] at ok
      cases ok
    apply Escalates.quiet
    · rintro ⟨again, judged, _⟩
      exact unjudged again false judged
    · rintro ⟨_, cleared, _⟩
      cases cleared
      exact remembers scope rfl
    · intro again attempts judged
      exact absurd judged (unjudged again true)
    · rw [Engine.scopeHealth, kept, Engine.scopeHealth]
    · intro _ _ _
      exact ⟨[], by rw [nothing, List.append_nil], rfl⟩
  have applies := device.applyChanges_applies faults batch (!batch.hasMore) rebuilding
  generalize (device.refreshIfSuspect faults batch.scope).2 = fresh at applies health effects
  generalize device.applyChanges faults batch (!batch.hasMore) rebuilding = outcome
    at applies moved replied
  cases applies with
  | refused e => exact failed e replied (by rw [moved, health]) (by rw [moved, effects])
  | committed plan _ plans =>
    exact committed_escalates graded health effects plans moved (by rw [replied]; rfl) ends
      remembers
  | unacknowledged e plan _ plans =>
    exact failed _ replied (by rw [moved]; exact health) (by rw [moved]; exact effects)
  | uncommitted e =>
    exact failed _ replied (by rw [moved]; exact health) (by rw [moved]; exact effects)

/-- A call that judges no scope and leaves the health of all of them alone. -/
theorem Device.LeavesHealth.escalates (leaves : device.LeavesHealth (device.call faults call))
    (endless : call.ends = none) (remembers : ∀ scope, call ≠ .clearScopeHealth scope) :
    device.Escalates (.call faults call) (device.call faults call) scope := by
  obtain ⟨emitted, effects, silent⟩ := leaves.silent
  apply Escalates.quiet
  · rintro ⟨_, judged, _⟩
    exact not_judges endless judged
  · rintro ⟨_, cleared, _⟩
    cases cleared
    exact remembers scope rfl
  · intro _ _ judged
    exact absurd judged (not_judges endless)
  · rw [Engine.scopeHealth, leaves.health, Engine.scopeHealth]
  · intro _ _ _
    exact ⟨emitted, effects, silent scope⟩

omit [Hashing] in
/-- Forgetting a history either succeeds or leaves memory as it was. -/
theorem Device.clearScopeHealth_cases (device : Device) (faults : Faults) (cleared : ScopeId) :
    (device.clearScopeHealth faults cleared).2.engine.effects = device.engine.effects ∧
      ((device.clearScopeHealth faults cleared).1.isOk = true ∧
          (device.clearScopeHealth faults cleared).2.engine.health =
            Finmap.erase cleared device.engine.health ∨
        (device.clearScopeHealth faults cleared).1.isOk = false ∧
          (device.clearScopeHealth faults cleared).2.engine.health = device.engine.health) := by
  unfold clearScopeHealth
  split
  · exact ⟨rfl, .inr ⟨rfl, rfl⟩⟩
  · exact ⟨rfl, .inl ⟨rfl, rfl⟩⟩

theorem Device.clearScopeHealth_escalates (device : Device) (faults : Faults)
    (scope cleared : ScopeId) :
    device.Escalates (.call faults (.clearScopeHealth cleared))
      (device.call faults (.clearScopeHealth cleared)) scope := by
  have uncounted : ¬ device.Counts (.call faults (.clearScopeHealth cleared)) scope := by
    rintro ⟨_, judged, _⟩
    exact not_judges rfl judged
  obtain ⟨effects, ending⟩ := device.clearScopeHealth_cases faults cleared
  have silent : (device.call faults (.clearScopeHealth cleared)).engine.effects =
      device.engine.effects ++ [] := effects.trans (List.append_nil _).symm
  by_cases forgets : device.Forgets (.call faults (.clearScopeHealth cleared)) scope
  · have forgotten := forgets
    obtain ⟨_, same, ok⟩ := forgotten
    cases same
    have erased : (device.call faults (.clearScopeHealth scope)).engine.health =
        Finmap.erase scope device.engine.health := by
      rcases ending with ⟨_, erased⟩ | ⟨failed, _⟩
      · exact erased
      · exact absurd (ok.symm.trans failed) (by decide)
    constructor
    · intro counted
      exact absurd counted uncounted
    · intro _ remembered
      exact absurd forgets remembered
    · intro _
      rw [Engine.scopeHealth, erased, Finmap.lookup_erase]
      rfl
    · intro _ _ remembered
      exact absurd forgets remembered
    · intro _ _ judged
      exact absurd judged (not_judges rfl)
    · intro _ _ _
      exact ⟨[], silent, fun counted => absurd counted.1 uncounted, fun _ => rfl⟩
  · apply Escalates.quiet uncounted forgets
    · intro _ _ judged
      exact absurd judged (not_judges rfl)
    · rcases ending with ⟨ok, erased⟩ | ⟨_, kept⟩
      · have elsewhere : scope ≠ cleared := by
          rintro rfl
          exact forgets ⟨faults, rfl, ok⟩
        change ((device.clearScopeHealth faults cleared).2.engine.health.lookup scope).getD _ = _
        rw [erased, Finmap.lookup_erase_ne elsewhere, Engine.scopeHealth]
      · change ((device.clearScopeHealth faults cleared).2.engine.health.lookup scope).getD _ = _
        rw [kept, Engine.scopeHealth]
    · intro _ _ _
      exact ⟨[], silent, rfl⟩

/-- Every call escalates every scope as it should. -/
theorem Device.call_escalates (device : Device) (faults : Faults) (call : ClientCall)
    (graded : (device.engine.scopeHealth scope).Graded) :
    device.Escalates (.call faults call) (device.call faults call) scope := by
  cases call with
  | applyBatch batch =>
    exact applyChanges_escalates graded rfl rfl rfl fun _ impossible => nomatch impossible
  | applyBootstrap response =>
    have replied : device.reply faults (.applyBootstrap response) = .applied
        (device.applyChanges faults response.toBatch (!response.toBatch.hasMore) true).1 := rfl
    exact applyChanges_escalates graded rfl replied rfl fun _ impossible => nomatch impossible
  | beginRebootstrap scope' =>
    exact (device.beginRebootstrap_health faults scope').escalates rfl
      fun _ impossible => nomatch impossible
  | reloadScope scope' =>
    exact (device.reloadScope_health faults scope').escalates rfl
      fun _ impossible => nomatch impossible
  | clearScopeHealth scope' => exact device.clearScopeHealth_escalates faults scope scope'
  | enqueue entry =>
    exact (device.enqueue_health faults entry).escalates rfl
      fun _ impossible => nomatch impossible
  | buildPush compressedLen protocol budgetBytes =>
    exact (device.buildPush_health faults compressedLen protocol budgetBytes).escalates rfl
      fun _ impossible => nomatch impossible
  | applyResults response =>
    exact (device.applyResults_health faults response).escalates rfl
      fun _ impossible => nomatch impossible

/-- A restart takes every scope's health back from storage. -/
theorem Device.HealthMirrors.restart_escalates (mirrors : device.HealthMirrors)
    (registry : Registry) (migrations : Migrations) {scopes : List ScopeId}
    (listed : device.db.Lists scopes) (scope : ScopeId) :
    device.Escalates (.restart registry migrations scopes)
      (Device.restart registry migrations scopes device.db) scope := by
  apply Escalates.quiet
  · rintro ⟨_, ⟨_, _, _, impossible, _⟩, _⟩
    cases impossible
  · rintro ⟨_, impossible, _⟩
    cases impossible
  · rintro _ _ ⟨_, _, _, impossible, _⟩
    cases impossible
  · exact (Device.restart_health registry migrations listed scope).trans (mirrors scope).symm
  · intro _ _ impossible
    cases impossible

end Applies

/-! ### Runs -/

/-- Every scope's health is one that its attempt count leaves possible. -/
def Device.AllGraded (device : Device) : Prop :=
  ∀ scope, (device.engine.scopeHealth scope).Graded

theorem Device.HealthMove.graded {device after : Device} {lost : Prop} {cleared : Option ScopeId}
    (moves : device.HealthMove after lost cleared) (kept : ¬ lost) (graded : device.AllGraded) :
    after.AllGraded := by
  intro other
  cases moves with
  | kept memory stored | reclear scope healthy memory stored =>
    rw [Engine.scopeHealth, memory]
    exact graded other
  | forgotten scope memory stored =>
    rw [Engine.scopeHealth, memory, Table.lookup_erase_if]
    split
    · trivial
    · exact graded other
  | recorded scope attempts healed raised memory stored =>
    rw [Engine.scopeHealth, memory, Table.lookup_insert_if]
    split
    · have before := graded scope
      rcases raised with ⟨rfl, rfl, counts⟩ | ⟨rfl, rfl, tainted⟩
      · have limit := before.below counts
        rw [before.next counts, Option.getD_some, Engine.restoredHealth, if_neg Bool.false_ne_true]
        split
        · exact Nat.le_antisymm limit ‹_›
        · exact ⟨Nat.succ_pos _, Nat.lt_of_not_le ‹_›⟩
      · cases held : device.engine.scopeHealth scope with
        | tainted attempts =>
          rw [held] at before
          exact before
        | healthy | healed _ | unhealable _ =>
          rw [held] at tainted
          cases tainted
    · exact graded other
  | unreported happened => exact absurd happened kept

theorem ScopeHealth.Graded.unhealable_iff {health : ScopeHealth} (graded : health.Graded) :
    (∃ attempts, health = .unhealable attempts) ↔ Engine.maxHealAttempts ≤ health.attempts := by
  cases health with
  | healthy =>
    constructor
    · rintro ⟨_, impossible⟩
      cases impossible
    · intro reached
      exact absurd reached (by decide)
  | tainted attempts | healed attempts =>
    constructor
    · rintro ⟨_, impossible⟩
      cases impossible
    · intro reached
      exact absurd reached (Nat.not_le.mpr graded.2)
  | unhealable attempts => exact ⟨fun _ => ge_of_eq graded, fun _ => ⟨attempts, rfl⟩⟩

theorem Engine.not_mem_scopesNeedingRebootstrap {engine : Engine} {scope : ScopeId}
    (unhealable : engine.scopeHealth scope = .unhealable attempts) :
    scope ∉ engine.scopesNeedingRebootstrap := by
  intro member
  have waiting := (Finset.mem_filter.mp member).2
  rw [unhealable] at waiting
  cases waiting

section Runs

variable [Hashing] {device before after : Device}

/-- Storage that does not lie records what memory takes for recorded. -/
theorem Device.Truthful.acknowledges {event : ClientEvent} (truthful : device.Truthful event) :
    device.Acknowledges event := by
  cases event with
  | call faults call => exact fun lied => absurd lied truthful
  | restart registry migrations scopes => trivial

/-- What a run of truthful storage keeps: memory mirrors it, within the limits. -/
structure Device.Heals (device : Device) : Prop where
  accounts : device.Accounts
  graded : device.AllGraded

theorem Device.Heals.event {event : ClientEvent} (heals : device.Heals)
    (step : Transition.Guarded Device.Resumes Device.Truthful device event after) :
    after.Heals := by
  obtain ⟨truthful, step⟩ := step
  have accounts := (heals.accounts.event ⟨truthful.acknowledges, step⟩).1
  refine ⟨accounts, ?_⟩
  obtain ⟨restores, rfl⟩ := step
  cases event with
  | call faults call =>
    exact (device.call_health faults call).graded (fun lost => truthful lost.1) heals.graded
  | restart registry migrations scopes =>
    intro scope
    rw [accounts.mirrors scope]
    change (device.db.health scope).Graded
    rw [← heals.accounts.mirrors scope]
    exact heals.graded scope

theorem Device.Heals.escalates {event : ClientEvent} (heals : device.Heals)
    (step : Transition.Guarded Device.Resumes Device.Truthful device event after)
    (scope : ScopeId) : device.Escalates event after scope := by
  obtain ⟨_, restores, rfl⟩ := step
  cases event with
  | call faults call => exact device.call_escalates faults call (heals.graded scope)
  | restart registry migrations scopes =>
    exact heals.accounts.mirrors.restart_escalates registry migrations restores scope

/-- Over storage that reports what it did, every event moves a scope's attempt count
and its health as designed; a scope is unhealable exactly at the limit, and is then
offered for no rebuild. -/
theorem healing_escalates (registry : Registry) (migrations : Migrations)
    (scopes : List ScopeId) (events : List ClientEvent) (event : ClientEvent)
    (before after : Device) (scope : ScopeId)
    (run : Transition.Run (Transition.Guarded Device.Resumes Device.Truthful)
      (Device.restart registry migrations scopes {}) events before)
    (step : Transition.Guarded Device.Resumes Device.Truthful before event after) :
    before.Escalates event after scope ∧
      ((∃ attempts, before.engine.scopeHealth scope = .unhealable attempts) ↔
        Engine.maxHealAttempts ≤ (before.engine.scopeHealth scope).attempts) ∧
      ∀ attempts, before.engine.scopeHealth scope = .unhealable attempts →
        scope ∉ before.engine.scopesNeedingRebootstrap := by
  have mirrors : (Device.restart registry migrations scopes {}).HealthMirrors :=
    Device.restart_health registry migrations ⟨fun _ member => absurd member (by simp),
      fun _ member => absurd member (by simp)⟩
  have start : (Device.restart registry migrations scopes {}).Heals := by
    refine ⟨⟨mirrors, fun _ => Nat.zero_le _⟩, fun other => ?_⟩
    rw [mirrors other]
    trivial
  have heals : before.Heals := run.invariant (fun _ _ _ => Device.Heals.event) start
  exact ⟨heals.escalates step scope, (heals.graded scope).unhealable_iff,
    fun _ => Engine.not_mem_scopesNeedingRebootstrap⟩

end Runs

namespace Sample

attribute [local instance] noteHashes

/-- An empty last page whose digest is not that of the note held. -/
def wrongPage : BootstrapResponse where
  protocol := 1
  scope := scope
  changes := []
  nextCursor := 2
  hasMore := false
  checksum := wrongNote.checksum
  digest := wrongNote.digest

/-- A divergence, one more that a rebuild ends in, and a restart. -/
def diverging : List ClientEvent :=
  [.call .none (.applyBatch wrongNote), .call .none (.applyBootstrap wrongPage),
    .restart notes Migrations.new [scope]]

theorem diverging_escalates : ∃ before,
    Transition.Run (Transition.Guarded Device.Resumes Device.Truthful)
      (Device.restart notes Migrations.new [scope] {}) diverging before ∧
    before.engine.scopeHealth scope = .tainted 2 ∧
    (before.react (.call .none (.applyBootstrap wrongPage))).engine.scopeHealth scope =
      .unhealable 3 ∧
    before.Escalates (.call .none (.applyBootstrap wrongPage))
      (before.react (.call .none (.applyBootstrap wrongPage))) scope := by
  have followed : (Transition.follow
      (fun device event => decide (device.Truthful event ∧ device.Restores event))
      (fun device event => some (Device.react device event))
      (Device.restart notes Migrations.new [scope] {}) diverging).any (fun device =>
        decide (device.engine.scopeHealth scope = .tainted 2 ∧
          (device.react (.call .none (.applyBootstrap wrongPage))).engine.scopeHealth scope =
            .unhealable 3)) = true := by
    decide +kernel
  have taken : ∀ (before : Device) (event : ClientEvent) after,
      decide (before.Truthful event ∧ before.Restores event) = true →
      some (before.react event) = some after →
      Transition.Guarded Device.Resumes Device.Truthful before event after :=
    fun _ _ _ allowed goes =>
      ⟨(of_decide_eq_true allowed).1, (of_decide_eq_true allowed).2, (Option.some.inj goes).symm⟩
  obtain ⟨before, run, test⟩ := Transition.Run.of_follow_any taken followed
  obtain ⟨tainted, given⟩ := of_decide_eq_true test
  have truthful : before.Truthful (.call .none (.applyBootstrap wrongPage)) :=
    fun impossible => nomatch impossible
  refine ⟨before, run, tainted, given, ?_⟩
  exact (healing_escalates notes Migrations.new [scope] diverging _ before _ scope run
    ⟨truthful, trivial, rfl⟩).1

end Sample

end CredSync
