import Mathlib.Logic.Basic

/-! An advisory lock of the kind that sessions hold, not transactions. It is counted: a session
that holds it is given it again, and has to release it as often. The end of a session releases it
for good. -/

universe u

/-- The session that holds the lock, and how often more than once. -/
abbrev AdvisoryLock (Session : Type u) := Option (Session × Nat)

namespace AdvisoryLock

variable {Session : Type u} [DecidableEq Session]

/-- `pg_try_advisory_lock`: granted unless another session holds the lock, and never waits. -/
def tryLock (lock : AdvisoryLock Session) (session : Session) : Bool × AdvisoryLock Session :=
  match lock with
  | none => (true, some (session, 0))
  | some (holder, more) =>
    if holder = session then (true, some (session, more + 1)) else (false, lock)

/-- `pg_advisory_unlock`: of a lock that is not held it is a warning and changes nothing. -/
def unlock (lock : AdvisoryLock Session) (session : Session) : AdvisoryLock Session :=
  match lock with
  | none => none
  | some (holder, more) =>
    if holder = session then
      match more with
      | 0 => none
      | more + 1 => some (session, more)
    else lock

/-- The end of a session. -/
def ended (lock : AdvisoryLock Session) (session : Session) : AdvisoryLock Session :=
  match lock with
  | none => none
  | some (holder, _) => if holder = session then none else lock

def HeldBy (lock : AdvisoryLock Session) (session : Session) : Prop :=
  lock.map Prod.fst = some session

instance (lock : AdvisoryLock Session) (session : Session) : Decidable (lock.HeldBy session) :=
  inferInstanceAs (Decidable (lock.map Prod.fst = some session))

variable {lock : AdvisoryLock Session} {session other : Session} {held : Session × Nat}

omit [DecidableEq Session] in
@[simp] theorem not_heldBy_none : ¬ HeldBy (none : AdvisoryLock Session) session := by
  simp [HeldBy]

omit [DecidableEq Session] in
@[simp] theorem heldBy_some : HeldBy (some held) session ↔ held.1 = session := by
  simp [HeldBy]

omit [DecidableEq Session] in
/-- A lock has one holder. -/
theorem HeldBy.unique (held : lock.HeldBy session) (held' : lock.HeldBy other) : session = other :=
  Option.some.inj (held.symm.trans held')

theorem tryLock_granted (granted : (lock.tryLock session).1 = true) :
    (lock.tryLock session).2.HeldBy session := by
  cases lock with
  | none => simp [tryLock]
  | some held =>
    by_cases own : held.1 = session
    · simp [tryLock, own]
    · simp [tryLock, own] at granted

/-- A lock that is refused, or free, is given once. -/
theorem tryLock_free (away : ¬ lock.HeldBy session) :
    (lock.tryLock session).2 = if (lock.tryLock session).1 then some (session, 0) else lock := by
  cases lock with
  | none => rfl
  | some held =>
    have foreign : held.1 ≠ session := fun same => away (heldBy_some.mpr same)
    simp [tryLock, foreign]

/-! ### What one session does, to another -/

/-- While one session holds the lock, no other changes it. -/
theorem tryLock_elsewhere (holds : lock.HeldBy session) (different : other ≠ session) :
    (lock.tryLock other).2 = lock := by
  cases lock with
  | none => exact absurd holds not_heldBy_none
  | some held =>
    have foreign : held.1 ≠ other := fun same => different (same.symm.trans (heldBy_some.mp holds))
    simp [tryLock, foreign]

theorem unlock_elsewhere (holds : lock.HeldBy session) (different : other ≠ session) :
    lock.unlock other = lock := by
  cases lock with
  | none => rfl
  | some held =>
    have foreign : held.1 ≠ other := fun same => different (same.symm.trans (heldBy_some.mp holds))
    simp [unlock, foreign]

theorem ended_elsewhere (holds : lock.HeldBy session) (different : other ≠ session) :
    lock.ended other = lock := by
  cases lock with
  | none => rfl
  | some held =>
    have foreign : held.1 ≠ other := fun same => different (same.symm.trans (heldBy_some.mp holds))
    simp [ended, foreign]

theorem heldBy_tryLock (different : other ≠ session) :
    (lock.tryLock session).2.HeldBy other ↔ lock.HeldBy other := by
  cases lock with
  | none => simp [tryLock, Ne.symm different]
  | some held =>
    by_cases own : held.1 = session
    · simp [tryLock, own, Ne.symm different]
    · simp [tryLock, own]

theorem heldBy_unlock (different : other ≠ session) :
    (lock.unlock session).HeldBy other ↔ lock.HeldBy other := by
  cases lock with
  | none => simp [unlock]
  | some held =>
    obtain ⟨holder, more⟩ := held
    by_cases own : holder = session
    · cases more <;> simp [unlock, own, Ne.symm different]
    · simp [unlock, own]

theorem heldBy_ended (different : other ≠ session) :
    (lock.ended session).HeldBy other ↔ lock.HeldBy other := by
  cases lock with
  | none => simp [ended]
  | some held =>
    by_cases own : held.1 = session
    · simp [ended, own, Ne.symm different]
    · simp [ended, own]

theorem not_heldBy_ended : ¬ (lock.ended session).HeldBy session := by
  cases lock with
  | none => simp [ended]
  | some held =>
    by_cases own : held.1 = session
    · simp [ended, own]
    · simp [ended, own]

end AdvisoryLock
