import CredSync.Server.PullWalk

/-! Calls of `append_change`, among pulls: each is made in a transaction that its caller
opened, or on a session that has none, where each of its two statements is a transaction of
its own and the writer's lock goes with the first. -/

namespace CredSync

universe u v w

/-- A change about to be written: a row of the log but for its `seq`. -/
structure NewChange where
  scope : Bytes
  entity : Bytes
  entityId : Bytes
  op : String
  snapshot : Option Value
  rowVersion : Int
  schemaVersion : Int

def NewChange.row (change : NewChange) (seq : Int) : SyncChange where
  scope := change.scope
  row := {
    seq := seq
    entity := change.entity
    entityId := change.entityId
    op := change.op
    snapshot := change.snapshot
    rowVersion := change.rowVersion
    schemaVersion := change.schemaVersion }

/-- The two statements of `append_change`: `lock_for_write`, and the insert. -/
inductive AppendStage where
  | locking
  | inserting
  deriving DecidableEq

/-- How far the statement is. One that is a transaction of its own begins it first, and
commits it once it has run. -/
inductive AppendPhase where
  | waiting
  | begun
  | ran
  deriving DecidableEq

/-- A call of `append_change` under way. -/
structure Append (Session : Type u) where
  session : Session
  change : NewChange
  stage : AppendStage := .locking
  phase : AppendPhase := .waiting

namespace Append

variable {Session : Type u}

/-- The statement; `seq` is the sequence's next value. -/
def statement (append : Append Session) (db : Database Session) : Statement :=
  match append.stage with
  | .locking => .lockShared
  | .inserting => .insertChange (append.change.row (db.lastValue + 1))

/-- What follows a statement that has succeeded; `none` is the end of the call. -/
def next (append : Append Session) : Option (Append Session) :=
  match append.stage with
  | .locking => some { append with stage := .inserting, phase := .waiting }
  | .inserting => none

/-- What follows a reply; an error ends the call. -/
def resume (append : Append Session) : Reply → Option (Append Session)
  | .error => none
  | _ => append.next

end Append

/-- The server, the calls of `append_change` under way, and the sessions in the middle of a
statement that is a transaction of its own. -/
structure Appends (Session : Type u) (Client : Type v) (Call : Type w) where
  world : World Session Client
  alone : Finset Session := ∅
  calls : Call → Option (Append Session) := fun _ => none

inductive AppendEvent (Session : Type u) (Client : Type v) (Call : Type w) where
  | caller (session : Session) (statement : Statement)
  | append (call : Call) (session : Session) (change : NewChange)
  | answer (call : Call)
  | fail (call : Call)
  | reader (event : Event Session Client)

/-- What the caller of `append_change` does with its session's transaction. -/
def Statement.Delimits : Statement → Prop
  | .begin | .commit | .rollback => True
  | _ => False

instance : DecidablePred Statement.Delimits
  | .begin | .commit | .rollback => isTrue trivial
  | .setLocalLockTimeout | .lockShared | .lockExclusive | .insertChange _ | .raiseWatermark
  | .readWatermark | .readChanges => isFalse id

/-- The events of pulls, and values of the sequence that go unused. -/
def Event.Reads {Session : Type u} {Client : Type v} : Event Session Client → Prop
  | .write .. | .writeFails .. => False
  | _ => True

instance {Session : Type u} {Client : Type v} : DecidablePred (@Event.Reads Session Client)
  | .write .. | .writeFails .. => isFalse id
  | .skip _ | .pull .. | .answer _ | .fail _ | .drop _ => isTrue trivial

namespace Appends

variable {Session : Type u} {Client : Type v} {Call : Type w}
  [DecidableEq Session] [DecidableEq Client] [DecidableEq Call] [Hashing]

def put (state : Appends Session Client Call) (db : Database Session) (alone : Finset Session)
    (call : Call) (append : Option (Append Session)) : Appends Session Client Call where
  world := { state.world with db := db }
  alone := alone
  calls := Function.update state.calls call append

/-- One moment of one session. -/
def next (state : Appends Session Client Call) :
    AppendEvent Session Client Call → Option (Appends Session Client Call)
  | .caller session statement =>
    (state.world.db.execute session statement).map fun answer =>
      { state with world := { state.world with db := answer.2 } }
  | .append call session change =>
    if (state.calls call).isSome then none
    else some (state.put state.world.db state.alone call (some { session, change }))
  | .answer call =>
    (state.calls call).bind fun append =>
      let db := state.world.db
      match append.phase with
      | .waiting =>
        if append.session ∈ state.alone then none
        else if db.sessions.tx append.session = .idle then
          some (state.put { db with sessions := db.sessions.begun append.session }
            (insert append.session state.alone) call (some { append with phase := .begun }))
        else (db.execute append.session (append.statement db)).map fun answer =>
          state.put answer.2 state.alone call (append.resume answer.1)
      | .begun => (db.execute append.session (append.statement db)).map fun answer =>
          state.put answer.2 state.alone call (some { append with phase := .ran })
      | .ran => (db.execute append.session .commit).map fun answer =>
          state.put answer.2 (state.alone.erase append.session) call append.next
  | .fail call =>
    (state.calls call).bind fun append =>
      let db := state.world.db
      match append.phase with
      | .waiting =>
        if append.session ∈ state.alone then none
        else some (state.put (db.interrupt append.session (append.statement db)) state.alone call none)
      | .begun | .ran =>
        some (state.put (db.aborting append.session) (state.alone.erase append.session) call none)
  | .reader event => (state.world.next event).map fun world => { state with world := world }

/-- Writers and pulls have sessions of their own, and each pull one to itself. A caller
leaves its session's transaction alone while a call is under way on it. -/
def Enabled (writers : Set Session) (state : Appends Session Client Call) :
    AppendEvent Session Client Call → Prop
  | .caller session statement => session ∈ writers ∧ statement.Delimits ∧
      ∀ call, ∀ append ∈ state.calls call, append.session ≠ session
  | .append _ session _ => session ∈ writers
  | .reader event => event.Reads ∧ state.world.Enabled writers event ∧ state.world.OwnSession event
  | _ => True

instance {writers : Set Session} [DecidablePred (· ∈ writers)] [Fintype Client] [Fintype Call]
    (state : Appends Session Client Call) : DecidablePred (state.Enabled writers)
  | .caller session statement => inferInstanceAs (Decidable (session ∈ writers ∧
      statement.Delimits ∧ ∀ call, ∀ append ∈ state.calls call, append.session ≠ session))
  | .append _ session _ => inferInstanceAs (Decidable (session ∈ writers))
  | .reader event => inferInstanceAs (Decidable (event.Reads ∧ state.world.Enabled writers event ∧
      state.world.OwnSession event))
  | .answer _ | .fail _ => isTrue trivial

def Step (writers : Set Session) (before : Appends Session Client Call)
    (event : AppendEvent Session Client Call) (after : Appends Session Client Call) : Prop :=
  before.Enabled writers event ∧ before.next event = some after

/-- The call is made in a transaction that its caller opened. -/
def InTransaction (state : Appends Session Client Call) : AppendEvent Session Client Call → Prop
  | .append _ session _ =>
      state.world.db.sessions.tx session ≠ .idle ∧ session ∉ state.alone
  | _ => True

instance (state : Appends Session Client Call) : DecidablePred state.InTransaction
  | .append _ session _ => inferInstanceAs (Decidable
      (state.world.db.sessions.tx session ≠ .idle ∧ session ∉ state.alone))
  | .caller .. | .answer _ | .fail _ | .reader _ => isTrue trivial

def start (scopes : Client → ScopeId) : Appends Session Client Call where
  world := World.start scopes

end Appends

section Protection

variable {Session : Type u} {Client : Type v} {Call : Type w}
  [DecidableEq Session] [DecidableEq Client] [DecidableEq Call] [Hashing]
  {writers : Set Session} {before after state : Appends Session Client Call}
  {sessions sessions' : Sessions Session} {session other : Session} {append : Append Session}

/-! ### One transaction -/

/-- A call's session is in a transaction, and holds the writer's lock once it is past it. -/
structure Append.Inside (sessions : Sessions Session) (append : Append Session) : Prop where
  waiting : append.phase = .waiting
  opened : sessions.tx append.session ≠ .idle
  locked : append.stage = .inserting →
    sessions.tx append.session = .failed ∨ append.session ∈ sessions.shared

omit [DecidableEq Session] [Hashing] in
theorem Append.Inside.goesOn (inside : append.Inside sessions)
    (goes : Sessions.GoesOn append.session sessions sessions') : append.Inside sessions' where
  waiting := inside.waiting
  opened := goes.opened inside.opened
  locked := fun past => (inside.locked past).imp goes.failed goes.shared

variable {db db' : Database Session} {reply : Reply}

omit [Hashing] in
/-- A statement of `append_change` ends no transaction. -/
theorem Append.statement_goesOn
    (ran : db.execute other (append.statement db) = some (reply, db')) :
    Sessions.GoesOn session db.sessions db'.sessions := by
  unfold Database.execute at ran
  unfold Append.statement at ran
  cases stage : append.stage with
  | locking =>
    rw [stage] at ran
    split at ran
    · cases ran
      exact .refl
    · obtain ⟨sessions, granted, same⟩ := Option.map_eq_some_iff.mp ran
      cases same
      exact Sessions.lockShared_goesOn granted
  | inserting =>
    rw [stage] at ran
    split at ran
    · cases ran
      exact .refl
    · simp only [Database.perform] at ran
      split at ran
      · cases ran
      · cases ran
        exact .refl

omit [Hashing] in
/-- Past `lock_for_write` the call's session holds the lock. -/
theorem Append.Inside.resume {later : Append Session} (inside : append.Inside db.sessions)
    (ran : db.execute append.session (append.statement db) = some (reply, db'))
    (resumes : append.resume reply = some later) :
    later.session = append.session ∧ later.Inside db'.sessions := by
  have goes : Sessions.GoesOn append.session db.sessions db'.sessions :=
    Append.statement_goesOn ran
  unfold Append.resume Append.next at resumes
  unfold Append.statement at ran
  cases stage : append.stage with
  | inserting =>
    rw [stage] at resumes
    cases reply <;> cases resumes
  | locking =>
    rw [stage] at ran resumes
    have done : later = { append with stage := .inserting, phase := .waiting } ∧ reply ≠ .error := by
      cases reply <;> cases resumes <;> exact ⟨rfl, by simp⟩
    obtain ⟨rfl, done⟩ := done
    refine ⟨rfl, rfl, goes.opened inside.opened, fun _ => .inr ?_⟩
    unfold Database.execute at ran
    split at ran
    · cases ran
      exact absurd rfl done
    · rename_i live
      obtain ⟨sessions, granted, same⟩ := Option.map_eq_some_iff.mp ran
      cases same
      have opened : db.sessions.tx append.session = .opened := by
        cases tx : db.sessions.tx append.session with
        | idle => exact absurd tx inside.opened
        | opened => rfl
        | failed => exact absurd tx live
      exact Sessions.lockShared_held opened granted

/-- Pulls leave the transactions of the writers alone. -/
theorem World.Step.goesOn {before after : World Session Client} {event : Event Session Client}
    (step : World.Step writers before event after) (reads : event.Reads)
    (keeps : before.Keeps writers) (writer : session ∈ writers) :
    Sessions.GoesOn session before.db.sessions after.db.sessions := by
  have apart : ∀ client pull, (before.walkers client).pull = some pull → session ≠ pull.session :=
    fun client pull active same => (keeps.walkers client).reads pull active (same ▸ writer)
  obtain ⟨_, goes⟩ := step
  cases event with
  | write | writeFails => exact reads.elim
  | skip value =>
    cases goes
    exact .refl
  | pull client reading request =>
    simp only [World.next] at goes
    split at goes <;> cases goes
    exact .refl
  | answer client =>
    obtain ⟨pull, active, moves⟩ := Option.bind_eq_some_iff.mp goes
    obtain ⟨⟨reply, db⟩, ran, rfl⟩ := Option.map_eq_some_iff.mp moves
    exact (Database.execute_elsewhere ran).goesOn (apart client pull active)
  | fail client =>
    obtain ⟨pull, active, rfl⟩ := Option.map_eq_some_iff.mp goes
    exact (Database.interrupt_elsewhere pull.stage.statement).goesOn (apart client pull active)
  | drop client =>
    cases goes
    exact .refl

/-! ### Runs -/

/-- Every call is in a transaction of its caller's, and no statement is one of its own. -/
structure Appends.Protects (writers : Set Session) (state : Appends Session Client Call) : Prop where
  keeps : state.world.Keeps writers
  owns : state.world.Owns
  alone : state.alone = ∅
  inside : ∀ call append, state.calls call = some append →
    append.session ∈ writers ∧ append.Inside state.world.db.sessions

omit [DecidableEq Call] in
/-- A step of the server that lets every transaction with a call in it go on. -/
theorem Appends.Protects.world {world : World Session Client} {event : Event Session Client}
    (protects : state.Protects writers) (step : World.Step writers state.world event world)
    (own : state.world.OwnSession event)
    (goes : ∀ call append, state.calls call = some append →
      Sessions.GoesOn append.session state.world.db.sessions world.db.sessions) :
    Appends.Protects writers { state with world := world } where
  keeps := (step.keeps (protects.owns.raisesLocked event) protects.keeps).1
  owns := step.owns own protects.keeps protects.owns
  alone := protects.alone
  inside := fun call append held =>
    (protects.inside call append held).imp_right fun inside => inside.goesOn (goes call append held)

omit [DecidableEq Client] [Hashing] in
/-- One call goes on, or ends. -/
theorem Appends.Protects.put (protects : state.Protects writers) (call : Call)
    (later : ∀ append, resumed = some append →
      append.session ∈ writers ∧ append.Inside state.world.db.sessions) :
    (state.put state.world.db state.alone call resumed).Protects writers where
  keeps := protects.keeps
  owns := protects.owns
  alone := protects.alone
  inside := by
    intro other append held
    by_cases same : other = call
    · subst same
      apply later append
      simpa [Appends.put] using held
    · apply protects.inside other append
      simpa [Appends.put, same] using held

omit [DecidableEq Client] [DecidableEq Call] [Hashing] in
theorem Appends.Protects.free (protects : state.Protects writers) (session : Session) :
    session ∉ state.alone := by
  rw [protects.alone]
  exact Finset.notMem_empty session

theorem Appends.Step.protects {event : AppendEvent Session Client Call}
    (step : Appends.Step writers before event after) (guarded : before.InTransaction event)
    (protects : before.Protects writers) : after.Protects writers := by
  obtain ⟨enabled, goes⟩ := step
  cases event with
  | caller session statement =>
    obtain ⟨writer, delimits, idle⟩ := enabled
    obtain ⟨⟨reply, db⟩, ran, rfl⟩ := Option.map_eq_some_iff.mp goes
    have writes : statement.Writes before.world.db session := by
      cases statement <;> first | exact trivial | exact delimits.elim
    have moved : World.Step writers before.world (.write session statement)
        { before.world with db := db } :=
      ⟨⟨writer, writes⟩, by rw [World.next, ran]; rfl⟩
    apply protects.world moved trivial
    intro call append held
    exact (Database.execute_elsewhere ran).goesOn (idle call append held)
  | append call session change =>
    simp only [Appends.next] at goes
    split at goes <;> cases goes
    apply protects.put call
    intro append made
    cases made
    exact ⟨enabled, rfl, guarded.1, fun past => by cases past⟩
  | answer call =>
    obtain ⟨append, held, moves⟩ := Option.bind_eq_some_iff.mp goes
    obtain ⟨writer, inside⟩ := protects.inside call append held
    simp only [inside.waiting, protects.free append.session, if_false, inside.opened] at moves
    obtain ⟨⟨reply, db⟩, ran, rfl⟩ := Option.map_eq_some_iff.mp moves
    have others : Appends.Protects writers
        { before with world := { before.world with db := db } } := by
      by_cases failed : before.world.db.sessions.tx append.session = .failed
      · have same : db = before.world.db := by
          unfold Database.execute at ran
          rw [if_pos failed] at ran
          cases stage : append.stage <;> simp only [Append.statement, stage] at ran <;> cases ran <;> rfl
        rw [same]
        exact protects
      · have writes : (append.statement before.world.db).Writes before.world.db append.session := by
          unfold Append.statement
          cases stage : append.stage with
          | locking => trivial
          | inserting => exact (inside.locked stage).resolve_left failed
        have moved : World.Step writers before.world
            (.write append.session (append.statement before.world.db))
            { before.world with db := db } :=
          ⟨⟨writer, writes⟩, by rw [World.next, ran]; rfl⟩
        exact protects.world moved trivial fun _ _ _ => Append.statement_goesOn ran
    refine others.put call fun later resumes => ?_
    obtain ⟨session, onward⟩ := inside.resume ran resumes
    exact ⟨session ▸ writer, onward⟩
  | fail call =>
    obtain ⟨append, held, moves⟩ := Option.bind_eq_some_iff.mp goes
    obtain ⟨writer, inside⟩ := protects.inside call append held
    simp only [inside.waiting, protects.free append.session, if_false] at moves
    cases moves
    let statement := append.statement before.world.db
    have interrupts : before.world.db.interrupt append.session statement =
        { before.world.db with
          sessions := before.world.db.sessions.interrupted append.session } := by
      cases stage : append.stage <;> simp only [statement, Append.statement, stage] <;> rfl
    have moved : World.Step writers before.world (.writeFails append.session statement)
        { before.world with db := before.world.db.interrupt append.session statement } :=
      ⟨writer, rfl⟩
    have others := protects.world moved trivial fun _ _ _ => by
      rw [interrupts]
      exact Sessions.interrupted_goesOn
    apply others.put call
    intro _ ended
    cases ended
  | reader event =>
    obtain ⟨reads, enabled, own⟩ := enabled
    obtain ⟨world, moved, rfl⟩ := Option.map_eq_some_iff.mp goes
    have step : World.Step writers before.world event world := ⟨enabled, moved⟩
    apply protects.world step own
    intro call append held
    exact step.goesOn reads protects.keeps (protects.inside call append held).1

omit [DecidableEq Client] [DecidableEq Call] [Hashing] in
theorem Appends.start_protects (writers : Set Session) (scopes : Client → ScopeId) :
    (Appends.start scopes : Appends Session Client Call).Protects writers where
  keeps := World.start_keeps writers scopes
  owns := by
    constructor
    · intro first second pull other active
      cases active
    · intro client pull active
      cases active
  alone := rfl
  inside := by
    intro call append held
    cases held

/-- Where every call of `append_change` is made in a transaction that its caller opened, a
row is undecided only while its writer holds the lock, and no watermark that a pull was
given is at or above it. -/
theorem append_change_is_protected (writers : Set Session) (scopes : Client → ScopeId)
    (events : List (AppendEvent Session Client Call)) (state : Appends Session Client Call)
    (run : Transition.Run (Transition.Guarded (Appends.Step writers) Appends.InTransaction)
      (Appends.start scopes) events state) :
    ∀ row ∈ state.world.db.log, row.fate = .pending →
      row.session ∈ state.world.db.sessions.shared ∧
      ∀ client pull watermark, (state.world.walkers client).pull = some pull →
        pull.stage = .reading watermark → watermark < row.seq := by
  have step : ∀ (before : Appends Session Client Call) event after, before.Protects writers →
      Transition.Guarded (Appends.Step writers) Appends.InTransaction before event after →
      after.Protects writers :=
    fun before event after protects taken => taken.2.protects taken.1 protects
  have protects := run.invariant step (Appends.start_protects writers scopes)
  intro row member pending
  refine ⟨protects.keeps.sound.guarded row member pending, ?_⟩
  intro client pull watermark active returned
  have safe := (protects.keeps.walkers client).returned pull watermark active (by rw [returned]; rfl)
  exact safe.settled row member pending

end Protection

namespace Sample

attribute [local instance] noteHashes

def appendedNote : NewChange where
  scope := scope.bytes
  entity := note.bytes
  entityId := first.bytes
  op := "upsert"
  snapshot := some (.object [])
  rowVersion := 1
  schemaVersion := 1

/-- A pull of the notes, up to where its watermark is returned. -/
def pullOfNotes : PullRequest where
  limit := 500
  budgetBytes := 1024
  compressedLen := List.length
  digest := ScopeDigest.empty.toHex

/-- Session `true` appends in its own transaction, and the pull on `false` waits for the
lock in vain. -/
def appendInside : List (AppendEvent Bool Unit Unit) :=
  [.caller true .begin, .append () true appendedNote, .answer (), .answer (),
    .reader (.pull () false pullOfNotes), .reader (.answer ()), .reader (.answer ()),
    .reader (.fail ()), .reader (.answer ()), .reader (.answer ()), .reader (.answer ())]

theorem appendInside_protected : ∃ state : Appends Bool Unit Unit,
    Transition.Run (Transition.Guarded (Appends.Step {true}) Appends.InTransaction)
      (Appends.start fun _ => scope) appendInside state ∧
    ∃ row ∈ state.world.db.log, row.fate = .pending ∧
      row.session ∈ state.world.db.sessions.shared := by
  have followed : (Transition.follow
      (fun state event => decide (Appends.InTransaction state event ∧ Appends.Enabled {true} state event))
      Appends.next (Appends.start fun _ => scope) appendInside).any
        (fun state : Appends Bool Unit Unit =>
          state.world.db.log.any (·.fate = .pending) &&
            (state.world.walkers ()).pull.any (·.stage = .reading 0)) = true := by
    decide +kernel
  have taken : ∀ (before : Appends Bool Unit Unit) label after,
      decide (before.InTransaction label ∧ before.Enabled {true} label) = true →
      before.next label = some after →
      Transition.Guarded (Appends.Step {true}) Appends.InTransaction before label after :=
    fun _ _ _ allowed goes => ⟨(of_decide_eq_true allowed).1, (of_decide_eq_true allowed).2, goes⟩
  obtain ⟨state, run, holds⟩ := Transition.Run.of_follow_any taken followed
  rw [Bool.and_eq_true] at holds
  obtain ⟨row, member, undecided⟩ := List.any_eq_true.mp holds.1
  have pending : row.fate = .pending := of_decide_eq_true undecided
  exact ⟨state, run, row, member, pending, (append_change_is_protected {true} (fun _ => scope)
    appendInside state run row member pending).1⟩

/-- On a session with no transaction the lock is gone before the row takes its `seq`; the
watermark is raised over the row while the insert has yet to commit. -/
def appendAlone : List (AppendEvent Bool Unit Unit) :=
  [.append () true appendedNote, .answer (), .answer (), .answer (), .answer (), .answer (),
    .reader (.pull () false pullOfNotes), .reader (.answer ()), .reader (.answer ()),
    .reader (.answer ()), .reader (.answer ()), .reader (.answer ())]

theorem appendAlone_unprotected : ∃ state : Appends Bool Unit Unit,
    Transition.Run (Appends.Step {true}) (Appends.start fun _ => scope) appendAlone state ∧
    ∃ row ∈ state.world.db.log, row.fate = .pending ∧
      row.session ∉ state.world.db.sessions.shared ∧
      ∃ pull watermark, (state.world.walkers ()).pull = some pull ∧
        pull.stage = .reading watermark ∧ row.seq ≤ watermark := by
  have followed : (Transition.follow
      (fun state event => decide (Appends.Enabled {true} state event))
      Appends.next (Appends.start fun _ => scope) appendAlone).any
        (fun state : Appends Bool Unit Unit =>
          state.world.db.log.any (fun row => decide (row.fate = .pending ∧
            row.session ∉ state.world.db.sessions.shared ∧ row.seq ≤ 1)) &&
          (state.world.walkers ()).pull.any (·.stage = .reading 1)) = true := by
    decide +kernel
  have taken : ∀ (before : Appends Bool Unit Unit) label after,
      decide (before.Enabled {true} label) = true → before.next label = some after →
      Appends.Step {true} before label after :=
    fun _ _ _ allowed goes => ⟨of_decide_eq_true allowed, goes⟩
  obtain ⟨state, run, holds⟩ := Transition.Run.of_follow_any taken followed
  rw [Bool.and_eq_true] at holds
  obtain ⟨row, member, undecided⟩ := List.any_eq_true.mp holds.1
  obtain ⟨pending, unlocked, below⟩ := of_decide_eq_true undecided
  obtain ⟨pull, active, stage⟩ := (Option.any_eq_true ..).mp holds.2
  exact ⟨state, run, row, member, pending, unlocked, pull, 1, active, of_decide_eq_true stage, below⟩

end Sample

end CredSync
