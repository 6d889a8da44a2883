import CredSync.Core.Coherence

/-! A refused batch moves nothing: whichever error an apply ends with before its commit,
storage, reports, health and outbox are as they were, and the next attempt ends as if
the first had not been made. -/

namespace CredSync

/-- What a host hands to the engine from a pull or a bootstrap. -/
inductive Download where
  | batch (batch : Batch)
  | page (response : BootstrapResponse)

def Device.take [Hashing] (device : Device) (faults : Faults) :
    Download → Except ApplyError Applied × Device
  | .batch batch => device.applyBatch faults batch
  | .page response => device.applyBootstrap faults response

/-- Two devices with the same storage and the same memory, scope by scope. Whether the
outbox is to be read again before it is used is not compared. -/
structure Device.Resembles (first second : Device) : Prop where
  db : first.db = second.db
  positions : ∀ scope, first.engine.scopeStateOr scope = second.engine.scopeStateOr scope
  health : first.engine.health = second.engine.health
  outbox : first.engine.outbox = second.engine.outbox
  effects : first.engine.effects = second.engine.effects
  suspect : first.engine.suspect = second.engine.suspect
  registry : first.engine.registry = second.engine.registry
  migrations : first.engine.migrations = second.engine.migrations
  upgradeRequired : first.engine.upgradeRequired = second.engine.upgradeRequired

/-- What refreshing a scope makes of a device when its position can be read. -/
def Device.refreshed (device : Device) (scope : ScopeId) : Device :=
  if scope ∈ device.engine.suspect then
    { device with
      engine := { device.engine with
        scopes := ((device.db.stored scope).map StoredScope.restored).elim
          (Finmap.erase scope device.engine.scopes) (device.engine.scopes.insert scope)
        suspect := device.engine.suspect.erase scope } }
  else device

variable {device first second fresh : Device} {faults : Faults} {scope : ScopeId} {batch : Batch}

theorem Device.Resembles.refl (device : Device) : device.Resembles device :=
  ⟨rfl, fun _ => rfl, rfl, rfl, rfl, rfl, rfl, rfl, rfl⟩

/-! ### Refreshing -/

theorem Device.refreshIfSuspect_ok (done : device.refreshIfSuspect faults scope = (.ok (), fresh)) :
    fresh = device.refreshed scope := by
  unfold refreshIfSuspect at done
  unfold refreshed
  split at done
  · rename_i suspect
    rw [if_pos suspect]
    split at done
    · cases done
    · rename_i stored read
      have found : device.db.stored scope = stored := Db.scopeState_ok read
      rw [found]
      cases done
      cases stored <;> rfl
  · rename_i trusted
    rw [if_neg trusted]
    cases done
    rfl

theorem Device.refreshIfSuspect_readable (readable : faults.scopeState = none) (device : Device)
    (scope : ScopeId) : device.refreshIfSuspect faults scope = (.ok (), device.refreshed scope) := by
  cases refreshed : device.refreshIfSuspect faults scope with
  | mk outcome fresh =>
  cases outcome with
  | ok => rw [Device.refreshIfSuspect_ok refreshed]
  | error e =>
    unfold refreshIfSuspect Db.scopeState at refreshed
    simp only [readable] at refreshed
    split at refreshed <;> cases refreshed

theorem Device.refreshed_trusted (device : Device) (scope : ScopeId) :
    scope ∉ (device.refreshed scope).engine.suspect := by
  unfold refreshed
  split
  · exact Finset.notMem_erase scope _
  · assumption

theorem Device.refreshed_idem (device : Device) (scope : ScopeId) :
    (device.refreshed scope).refreshed scope = device.refreshed scope :=
  if_neg (device.refreshed_trusted scope)

/-- A refreshed scope is at its stored position, if it was suspect, and nothing else moves. -/
theorem Device.refreshed_spec (device : Device) (scope : ScopeId) :
    ∃ scopes suspect, device.refreshed scope =
        { device with engine := { device.engine with scopes := scopes, suspect := suspect } } ∧
      suspect = device.engine.suspect.erase scope ∧
      ∀ other, (device.refreshed scope).engine.scopeStateOr other =
        if other = scope ∧ scope ∈ device.engine.suspect then device.db.position scope
        else device.engine.scopeStateOr other := by
  unfold refreshed
  split
  · rename_i suspect
    refine ⟨_, _, rfl, rfl, ?_⟩
    intro other
    rw [Engine.scopeStateOr, Db.position]
    by_cases here : other = scope
    · subst here
      rw [if_pos ⟨rfl, suspect⟩]
      cases device.db.stored other with
      | none => simp [Finmap.lookup_erase]
      | some stored => simp
    · rw [if_neg fun both => here both.1]
      cases device.db.stored scope with
      | none => simp [Engine.scopeStateOr, Finmap.lookup_erase_ne here]
      | some stored => simp [Engine.scopeStateOr, here]
  · rename_i trusted
    refine ⟨_, _, rfl, (Finset.erase_eq_of_notMem trusted).symm, ?_⟩
    intro other
    rw [if_neg fun both => trusted both.2]

theorem Device.Resembles.refreshed (alike : first.Resembles second) (scope : ScopeId) :
    (first.refreshed scope).Resembles (second.refreshed scope) := by
  obtain ⟨scopes, suspect, made, left, positions⟩ := first.refreshed_spec scope
  obtain ⟨scopes', suspect', made', left', positions'⟩ := second.refreshed_spec scope
  refine ⟨?_, ?_, ?_, ?_, ?_, ?_, ?_, ?_, ?_⟩
  · rw [made, made']
    exact alike.db
  · intro other
    rw [positions, positions', alike.suspect, alike.db, alike.positions]
  · rw [made, made']
    exact alike.health
  · rw [made, made']
    exact alike.outbox
  · rw [made, made']
    exact alike.effects
  · rw [made, made', left, left', alike.suspect]
  · rw [made, made']
    exact alike.registry
  · rw [made, made']
    exact alike.migrations
  · rw [made, made']
    exact alike.upgradeRequired

section Applying

variable [Hashing] {compareDigest rebuilding : Bool}

/-! ### Applying -/

theorem Device.applyChanges_refreshed (readable : faults.scopeState = none) (device : Device)
    (batch : Batch) (compareDigest rebuilding : Bool) :
    device.applyChanges faults batch compareDigest rebuilding =
      (device.refreshed batch.scope).applyChanges faults batch compareDigest rebuilding := by
  unfold applyChanges
  rw [Device.refreshIfSuspect_readable readable, Device.refreshIfSuspect_readable readable,
    device.refreshed_idem]

omit [Hashing] in
theorem Device.Resembles.distrust (alike : first.Resembles second) (scope : ScopeId) (db : Db) :
    Device.Resembles ⟨first.engine.distrust scope, db⟩ ⟨second.engine.distrust scope, db⟩ :=
  ⟨rfl, alike.positions, alike.health, alike.outbox, alike.effects,
    congrArg (insert scope) alike.suspect, alike.registry, alike.migrations, alike.upgradeRequired⟩

theorem Device.Resembles.advance (alike : first.Resembles second) (batch : Batch) (plan : Plan) (db : Db) :
    Device.Resembles ⟨Device.advance first.engine batch plan, db⟩
      ⟨Device.advance second.engine batch plan, db⟩ := by
  obtain ⟨reports, moved⟩ := Device.advance_alike batch plan
  have health : first.engine.scopeHealth batch.scope = second.engine.scopeHealth batch.scope := by
    rw [Engine.scopeHealth, alike.health, Engine.scopeHealth]
  rw [moved, moved]
  refine ⟨rfl, ?_, ?_, alike.outbox, ?_, alike.suspect, alike.registry, alike.migrations,
    alike.upgradeRequired⟩
  · intro other
    have inserted := first.engine.scopeStateOr_insert batch.scope other
      ⟨batch.nextCursor, plan.digest⟩
    have inserted' := second.engine.scopeStateOr_insert batch.scope other
      ⟨batch.nextCursor, plan.digest⟩
    rw [alike.positions] at inserted
    exact inserted.trans inserted'.symm
  · simp only [alike.health, health]
  · simp only [alike.effects]

/-- Devices that are alike answer alike and stay alike, where positions can be read. -/
theorem Device.Resembles.applyChanges (alike : first.Resembles second) (readable : faults.scopeState = none)
    (batch : Batch) (compareDigest rebuilding : Bool) :
    (first.applyChanges faults batch compareDigest rebuilding).1 =
        (second.applyChanges faults batch compareDigest rebuilding).1 ∧
      (first.applyChanges faults batch compareDigest rebuilding).2.Resembles
        (second.applyChanges faults batch compareDigest rebuilding).2 := by
  have fresh := alike.refreshed batch.scope
  have planned : (first.refreshed batch.scope).plan faults batch compareDigest rebuilding =
      (second.refreshed batch.scope).plan faults batch compareDigest rebuilding := by
    apply Device.plan_congr faults fresh.registry fresh.migrations (fun _ _ => by rw [fresh.db])
      (fresh.positions _)
    rw [Engine.scopeHealth, fresh.health, Engine.scopeHealth]
  unfold Device.applyChanges
  simp only [Device.refreshIfSuspect_readable readable, planned, fresh.db]
  cases (second.refreshed batch.scope).plan faults batch compareDigest rebuilding with
  | error e => exact ⟨rfl, fresh⟩
  | ok plan =>
    simp only
    cases Db.transact faults (second.refreshed batch.scope).db plan.ops with
    | mk outcome db =>
    cases outcome with
    | error e => exact ⟨rfl, fresh.distrust batch.scope db⟩
    | ok done => exact ⟨rfl, fresh.advance batch plan db⟩

/-- What an apply leaves that was refused before its commit: the device as it was, or
refreshed, or refreshed and distrusted. -/
theorem Device.applyChanges_refused (early : faults.verdict ≠ .commitThenLoseAck)
    {e : ApplyError}
    (refused : (device.applyChanges faults batch compareDigest rebuilding).1 = .error e) :
    let after := (device.applyChanges faults batch compareDigest rebuilding).2
    after = device ∨ after = device.refreshed batch.scope ∨
      after = ⟨(device.refreshed batch.scope).engine.distrust batch.scope, device.db⟩ := by
  obtain ⟨scopes, suspect, made, -, -⟩ := device.refreshed_spec batch.scope
  have stored : (device.refreshed batch.scope).db = device.db := by rw [made]
  unfold applyChanges at refused ⊢
  cases refreshed : device.refreshIfSuspect faults batch.scope with
  | mk outcome fresh =>
  cases outcome with
  | error e =>
    obtain ⟨_, _, left⟩ := device.refreshIfSuspect_eq faults batch.scope
    left
    unfold refreshIfSuspect at refreshed
    split at refreshed
    · split at refreshed
      · cases refreshed
        rfl
      · cases refreshed
    · cases refreshed
  | ok =>
    have fresh' := Device.refreshIfSuspect_ok refreshed
    subst fresh'
    right
    rw [refreshed] at refused
    simp only at refused ⊢
    cases planned : (device.refreshed batch.scope).plan faults batch compareDigest rebuilding with
    | error e =>
      left
      rfl
    | ok plan =>
      rw [planned] at refused
      simp only at refused ⊢
      unfold Db.transact at refused ⊢
      cases verdict : faults.verdict with
      | commit =>
        rw [verdict] at refused
        cases refused
      | failBeforeCommit =>
        right
        simp only [stored]
      | commitThenLoseAck => exact absurd verdict early

/-- An apply that was refused before its commit leaves the next one where it was. -/
theorem Device.Mirrors.retries (mirrors : device.Mirrors)
    (early : faults.verdict ≠ .commitThenLoseAck) {e : ApplyError}
    (refused : (device.applyChanges faults batch compareDigest rebuilding).1 = .error e) :
    ((device.applyChanges faults batch compareDigest rebuilding).2.refreshed batch.scope).Resembles
      (device.refreshed batch.scope) := by
  rcases Device.applyChanges_refused early refused with same | same | same
  · rw [same]
    exact .refl _
  · rw [same, device.refreshed_idem]
    exact .refl _
  · obtain ⟨scopes, suspect, made, left, positions⟩ := device.refreshed_spec batch.scope
    have trusted := device.refreshed_trusted batch.scope
    have exact' : (device.refreshed batch.scope).Mirrors := by
      have readable : device.refreshIfSuspect .none batch.scope = _ :=
        Device.refreshIfSuspect_readable rfl device batch.scope
      have kept := mirrors.refresh .none batch.scope
      rwa [readable] at kept
    have stored : (device.refreshed batch.scope).db = device.db := by rw [made]
    generalize device.refreshed batch.scope = fresh at same trusted exact' stored
    rw [same, ← stored]
    obtain ⟨scopes', suspect', made', left', positions'⟩ :=
      Device.refreshed_spec ⟨fresh.engine.distrust batch.scope, fresh.db⟩ batch.scope
    exact {
      db := by rw [made']
      positions := by
        intro other
        rw [positions']
        split
        · rename_i here
          rw [here.1]
          exact (exact' _ trusted).symm
        · rfl
      health := by rw [made']; rfl
      outbox := by rw [made']; rfl
      effects := by rw [made']; rfl
      suspect := by
        rw [made', left']
        exact Finset.erase_insert trusted
      registry := by rw [made']; rfl
      migrations := by rw [made']; rfl
      upgradeRequired := by rw [made']; rfl }

/-- Whatever refuses a batch or a page before its commit, nothing has moved: storage,
reports, health and outbox are as they were, each cursor and digest in memory is as it was
or the stored one, and the next attempt at which positions can be read answers and leaves
what it would have without this one. -/
theorem refused_moves_nothing (device : Device) (mirrors : device.Mirrors) (faults : Faults)
    (early : faults.verdict ≠ .commitThenLoseAck) (download : Download) (e : ApplyError)
    (refused : (device.take faults download).1 = .error e) :
    let after := (device.take faults download).2
    after.db = device.db ∧ after.engine.effects = device.engine.effects ∧
    after.engine.health = device.engine.health ∧ after.engine.outbox = device.engine.outbox ∧
    (∀ scope, after.engine.scopeStateOr scope = device.engine.scopeStateOr scope ∨
      after.engine.scopeStateOr scope = device.db.position scope) ∧
    ∀ later : Faults, later.scopeState = none →
      (after.take later download).1 = (device.take later download).1 ∧
        (after.take later download).2.Resembles (device.take later download).2 := by
  have whole : ∀ (batch : Batch) (compareDigest rebuilding : Bool),
      (device.applyChanges faults batch compareDigest rebuilding).1 = .error e →
      let after := (device.applyChanges faults batch compareDigest rebuilding).2
      (after.db = device.db ∧ after.engine.effects = device.engine.effects ∧
        after.engine.health = device.engine.health ∧ after.engine.outbox = device.engine.outbox ∧
        ∀ scope, after.engine.scopeStateOr scope = device.engine.scopeStateOr scope ∨
          after.engine.scopeStateOr scope = device.db.position scope) ∧
      ∀ later : Faults, later.scopeState = none →
        (after.applyChanges later batch compareDigest rebuilding).1 =
            (device.applyChanges later batch compareDigest rebuilding).1 ∧
          (after.applyChanges later batch compareDigest rebuilding).2.Resembles
            (device.applyChanges later batch compareDigest rebuilding).2 := by
    intro batch compareDigest rebuilding refused
    constructor
    · obtain ⟨scopes, suspect, made, -, positions⟩ := device.refreshed_spec batch.scope
      have position : ∀ scope, (device.refreshed batch.scope).engine.scopeStateOr scope =
            device.engine.scopeStateOr scope ∨
          (device.refreshed batch.scope).engine.scopeStateOr scope = device.db.position scope := by
        intro scope
        rw [positions]
        split
        · rename_i here
          rw [here.1]
          exact .inr rfl
        · exact .inl rfl
      rcases Device.applyChanges_refused early refused with same | same | same
      · rw [same]
        exact ⟨rfl, rfl, rfl, rfl, fun _ => .inl rfl⟩
      · rw [same]
        exact ⟨by rw [made], by rw [made], by rw [made], by rw [made], position⟩
      · rw [same]
        exact ⟨rfl, by rw [made]; rfl, by rw [made]; rfl, by rw [made]; rfl, position⟩
    · intro later readable
      rw [Device.applyChanges_refreshed readable, device.applyChanges_refreshed readable]
      exact (mirrors.retries early refused).applyChanges readable batch compareDigest rebuilding
  cases download with
  | batch batch =>
    obtain ⟨⟨db, effects, health, outbox, positions⟩, retries⟩ := whole batch _ _ refused
    exact ⟨db, effects, health, outbox, positions, retries⟩
  | page response =>
    obtain ⟨⟨db, effects, health, outbox, positions⟩, retries⟩ :=
      whole response.toBatch _ _ refused
    exact ⟨db, effects, health, outbox, positions, retries⟩

end Applying

namespace Sample

attribute [local instance] noteHashes

/-- The first note is lost before it commits, and applied when it comes again. -/
theorem lostNote_retries :
    let fresh := Device.restart notes Migrations.new [Sample.scope] {}
    let lost := (fresh.take { verdict := .failBeforeCommit } (.batch firstNote)).2
    lost.db = fresh.db ∧ (lost.take .none (.batch firstNote)).1.isOk = true ∧
    (lost.take .none (.batch firstNote)).2.Resembles (fresh.take .none (.batch firstNote)).2 := by
  intro fresh lost
  have mirrors : fresh.Mirrors :=
    Device.restart_mirrors notes Migrations.new fun other stored => absurd rfl stored
  have refused : (fresh.take { verdict := .failBeforeCommit } (.batch firstNote)).1 =
      .error (.storage (.transient "simulated failure before commit")) := by
    rfl
  have accepted : (fresh.take .none (.batch firstNote)).1.isOk = true := by rfl
  obtain ⟨db, -, -, -, -, retries⟩ :=
    refused_moves_nothing fresh mirrors _ (by decide) (.batch firstNote) _ refused
  obtain ⟨same, alike⟩ := retries .none rfl
  exact ⟨db, by rw [same]; exact accepted, alike⟩

end Sample

end CredSync
