import Mathlib.Data.Finset.Union
import Mathlib.Logic.Function.Basic

/-! Sessions of a database. Each has at most one transaction, and transactions
hold one advisory lock, shared or exclusive, until they end. -/

universe u

/-- The transaction of a session; a failed one refuses every statement until it ends. -/
inductive Sessions.Tx where
  | idle
  | opened
  | failed
  deriving DecidableEq

/-- Every session's transaction, and the sessions whose transactions hold the lock. -/
structure Sessions (Session : Type u) where
  tx : Session → Sessions.Tx := fun _ => .idle
  shared : Finset Session := ∅
  exclusive : Finset Session := ∅

namespace Sessions

variable {Session : Type u} [DecidableEq Session]

/-- `BEGIN`: inside a transaction it is a warning and changes nothing. -/
def begun (sessions : Sessions Session) (session : Session) : Sessions Session :=
  { sessions with tx := Function.update sessions.tx session .opened }

/-- An error inside a transaction fails it; the locks it holds stay held. -/
def interrupted (sessions : Sessions Session) (session : Session) : Sessions Session :=
  if sessions.tx session = .opened then
    { sessions with tx := Function.update sessions.tx session .failed }
  else sessions

/-- The end of a transaction releases its locks. -/
def ended (sessions : Sessions Session) (session : Session) : Sessions Session where
  tx := Function.update sessions.tx session .idle
  shared := sessions.shared.erase session
  exclusive := sessions.exclusive.erase session

/-- `pg_advisory_xact_lock_shared`; `none` while another session holds the lock
exclusively. Outside a transaction the lock is gone with the statement. -/
def lockShared (sessions : Sessions Session) (session : Session) : Option (Sessions Session) :=
  if (sessions.exclusive.erase session).Nonempty then none
  else if sessions.tx session = .opened then
    some { sessions with shared := insert session sessions.shared }
  else some sessions

/-- `pg_advisory_xact_lock`; `none` while another session holds the lock at all.
A session that holds it already is given it again. -/
def lockExclusive (sessions : Sessions Session) (session : Session) : Option (Sessions Session) :=
  if ((sessions.shared ∪ sessions.exclusive).erase session).Nonempty then none
  else if sessions.tx session = .opened then
    some { sessions with exclusive := insert session sessions.exclusive }
  else some sessions

/-- An exclusive holder is the only holder, and only transactions hold the lock. -/
structure Exclusion (sessions : Sessions Session) : Prop where
  alone : ∀ holder ∈ sessions.exclusive, ∀ other ∈ sessions.shared ∪ sessions.exclusive, other = holder
  within : ∀ holder ∈ sessions.shared ∪ sessions.exclusive, sessions.tx holder ≠ .idle

/-- Nothing changed for any other session. -/
structure Elsewhere (session : Session) (before after : Sessions Session) : Prop where
  tx : ∀ other ≠ session, after.tx other = before.tx other
  shared : ∀ other ≠ session, other ∈ after.shared ↔ other ∈ before.shared
  exclusive : ∀ other ≠ session, other ∈ after.exclusive ↔ other ∈ before.exclusive

/-- A session's transaction goes on: it may fail, and it loses no lock. -/
structure GoesOn (session : Session) (before after : Sessions Session) : Prop where
  opened : before.tx session ≠ .idle → after.tx session ≠ .idle
  failed : before.tx session = .failed → after.tx session = .failed
  shared : session ∈ before.shared → session ∈ after.shared

variable {sessions after : Sessions Session} {session other : Session}

@[simp] theorem begun_tx : (sessions.begun session).tx session = .opened := Function.update_self ..

omit [DecidableEq Session] in
theorem Elsewhere.refl : Elsewhere session sessions sessions where
  tx := fun _ _ => rfl
  shared := fun _ _ => .rfl
  exclusive := fun _ _ => .rfl

theorem Exclusion.empty : Exclusion ({} : Sessions Session) where
  alone := fun _ member => absurd member (Finset.notMem_empty _)
  within := fun _ member => by simp at member

theorem elsewhere_begun : Elsewhere session sessions (sessions.begun session) where
  tx := fun _ different => Function.update_of_ne different ..
  shared := fun _ _ => .rfl
  exclusive := fun _ _ => .rfl

theorem elsewhere_interrupted : Elsewhere session sessions (sessions.interrupted session) := by
  unfold interrupted
  split
  · exact ⟨fun _ different => Function.update_of_ne different .., fun _ _ => .rfl, fun _ _ => .rfl⟩
  · exact .refl

theorem elsewhere_ended : Elsewhere session sessions (sessions.ended session) where
  tx := fun _ different => Function.update_of_ne different ..
  shared := fun _ different => by simp [ended, different]
  exclusive := fun _ different => by simp [ended, different]

private theorem alone_of_free {holders : Finset Session} (free : ¬(holders.erase session).Nonempty) :
    ∀ holder ∈ holders, holder = session := by
  intro holder member
  by_contra different
  exact free ⟨holder, Finset.mem_erase.mpr ⟨different, member⟩⟩

/-- A shared lock is granted when no other session holds it exclusively. -/
theorem lockShared_some (granted : sessions.lockShared session = some after) :
    (∀ holder ∈ sessions.exclusive, holder = session) ∧
      ((sessions.tx session = .opened ∧
          after = { sessions with shared := insert session sessions.shared }) ∨
        (sessions.tx session ≠ .opened ∧ after = sessions)) := by
  unfold lockShared at granted
  split at granted
  · cases granted
  · rename_i free
    refine ⟨alone_of_free free, ?_⟩
    split at granted <;> cases granted
    · exact .inl ⟨‹_›, rfl⟩
    · exact .inr ⟨‹_›, rfl⟩

/-- An exclusive lock is granted when no other session holds the lock at all. -/
theorem lockExclusive_some (granted : sessions.lockExclusive session = some after) :
    (∀ holder ∈ sessions.shared ∪ sessions.exclusive, holder = session) ∧
      ((sessions.tx session = .opened ∧
          after = { sessions with exclusive := insert session sessions.exclusive }) ∨
        (sessions.tx session ≠ .opened ∧ after = sessions)) := by
  unfold lockExclusive at granted
  split at granted
  · cases granted
  · rename_i free
    refine ⟨alone_of_free free, ?_⟩
    split at granted <;> cases granted
    · exact .inl ⟨‹_›, rfl⟩
    · exact .inr ⟨‹_›, rfl⟩

theorem elsewhere_lockShared (granted : sessions.lockShared session = some after) :
    Elsewhere session sessions after := by
  obtain ⟨_, ⟨_, rfl⟩ | ⟨_, rfl⟩⟩ := lockShared_some granted
  · exact ⟨fun _ _ => rfl, fun _ different => by simp [different], fun _ _ => .rfl⟩
  · exact .refl

theorem elsewhere_lockExclusive (granted : sessions.lockExclusive session = some after) :
    Elsewhere session sessions after := by
  obtain ⟨_, ⟨_, rfl⟩ | ⟨_, rfl⟩⟩ := lockExclusive_some granted
  · exact ⟨fun _ _ => rfl, fun _ _ => .rfl, fun _ different => by simp [different]⟩
  · exact .refl

/-! ### Transactions that go on -/

omit [DecidableEq Session] in
theorem GoesOn.refl : GoesOn session sessions sessions := ⟨id, id, id⟩

omit [DecidableEq Session] in
theorem Elsewhere.goesOn (elsewhere : Elsewhere other sessions after) (different : session ≠ other) :
    GoesOn session sessions after where
  opened := by
    rw [elsewhere.tx session different]
    exact id
  failed := by
    rw [elsewhere.tx session different]
    exact id
  shared := (elsewhere.shared session different).mpr

theorem interrupted_goesOn : GoesOn session sessions (sessions.interrupted other) := by
  unfold interrupted
  split
  · by_cases same : session = other
    · subst same
      refine ⟨?_, ?_, id⟩ <;> simp
    · refine ⟨?_, ?_, id⟩ <;> simp [same]
  · exact .refl

theorem lockShared_goesOn (granted : sessions.lockShared other = some after) :
    GoesOn session sessions after := by
  obtain ⟨_, ⟨_, rfl⟩ | ⟨_, rfl⟩⟩ := lockShared_some granted
  · exact ⟨id, id, Finset.mem_insert_of_mem⟩
  · exact .refl

/-- Inside a transaction the shared lock, once granted, is held. -/
theorem lockShared_held (opened : sessions.tx session = .opened)
    (granted : sessions.lockShared session = some after) : session ∈ after.shared := by
  obtain ⟨_, ⟨_, rfl⟩ | ⟨closed, _⟩⟩ := lockShared_some granted
  · exact Finset.mem_insert_self session _
  · exact absurd opened closed

/-! ### Exclusion is kept -/

theorem Exclusion.begun (exclusion : sessions.Exclusion) : (sessions.begun session).Exclusion where
  alone := exclusion.alone
  within := by
    intro holder member
    by_cases same : holder = session
    · rw [same, begun_tx]
      decide
    · rw [elsewhere_begun.tx holder same]
      exact exclusion.within holder member

theorem Exclusion.interrupted (exclusion : sessions.Exclusion) :
    (sessions.interrupted session).Exclusion := by
  unfold Sessions.interrupted
  split
  · refine ⟨exclusion.alone, fun holder member => ?_⟩
    by_cases same : holder = session
    · rw [same]
      simp
    · simpa [same] using exclusion.within holder member
  · exact exclusion

theorem Exclusion.ended (exclusion : sessions.Exclusion) : (sessions.ended session).Exclusion where
  alone := by
    intro holder member other present
    simp only [Sessions.ended, Finset.mem_union, Finset.mem_erase] at member present
    exact exclusion.alone holder member.2 other (Finset.mem_union.mpr (present.imp (·.2) (·.2)))
  within := by
    intro holder member
    simp only [Sessions.ended, Finset.mem_union, Finset.mem_erase] at member
    have different : holder ≠ session := member.elim (·.1) (·.1)
    rw [elsewhere_ended.tx holder different]
    exact exclusion.within holder (Finset.mem_union.mpr (member.imp (·.2) (·.2)))

theorem Exclusion.lockShared (exclusion : sessions.Exclusion)
    (granted : sessions.lockShared session = some after) : after.Exclusion := by
  obtain ⟨only, ⟨opened, rfl⟩ | ⟨_, rfl⟩⟩ := lockShared_some granted
  · constructor
    · intro holder member other present
      rcases Finset.mem_union.mp present with shared | exclusive
      · rcases Finset.mem_insert.mp shared with rfl | shared
        · exact (only holder member).symm
        · exact exclusion.alone holder member other (Finset.mem_union_left _ shared)
      · exact exclusion.alone holder member other (Finset.mem_union_right _ exclusive)
    · intro holder member
      rw [Finset.insert_union, Finset.mem_insert] at member
      rcases member with rfl | member
      · change sessions.tx holder ≠ .idle
        rw [opened]
        decide
      · exact exclusion.within holder member
  · exact exclusion

theorem Exclusion.lockExclusive (exclusion : sessions.Exclusion)
    (granted : sessions.lockExclusive session = some after) : after.Exclusion := by
  obtain ⟨only, ⟨opened, rfl⟩ | ⟨_, rfl⟩⟩ := lockExclusive_some granted
  · have single : ∀ holder ∈ sessions.shared ∪ insert session sessions.exclusive,
        holder = session := by
      intro holder member
      rw [Finset.union_insert, Finset.mem_insert] at member
      exact member.elim id (only holder)
    constructor
    · intro holder member other present
      exact (single other present).trans (single holder (Finset.mem_union_right _ member)).symm
    · intro holder member
      change sessions.tx holder ≠ .idle
      rw [single holder member, opened]
      decide
  · exact exclusion

end Sessions
