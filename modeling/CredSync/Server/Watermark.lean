import CredSync.Library.Run
import CredSync.Server.Database

/-! Pulls over a change log that is being written to: `safe_watermark` statement
by statement, the page read up to the watermark it returns, and the clients that
walk a scope with such pulls. -/

namespace CredSync

universe u v

/-- Where a call of `changes_after` is, named after the statement it runs next. -/
inductive Stage where
  | beginning
  | settingTimeout
  | locking
  | raising
  | closing (established : Option Int)
  | rollingBack
  | recorded
  | reading (watermark : Int)
  deriving DecidableEq

namespace Stage

def statement : Stage → Statement
  | .beginning => .begin
  | .settingTimeout => .setLocalLockTimeout
  | .locking => .lockExclusive
  | .raising => .raiseWatermark
  | .closing _ => .commit
  | .rollingBack => .rollback
  | .recorded => .readWatermark
  | .reading _ => .readChanges

/-- What follows a reply; `none` is the end of the call. An attempt that fails or
times out falls back to the recorded watermark. -/
def next : Stage → Reply → Option Stage
  | .beginning, .error => none
  | .beginning, _ => some .settingTimeout
  | .settingTimeout, .error => some (.closing none)
  | .settingTimeout, _ => some .locking
  | .locking, .error => some (.closing none)
  | .locking, _ => some .raising
  | .raising, .value watermark => some (.closing (some watermark))
  | .raising, _ => some (.closing none)
  | .closing (some _), .error => none
  | .closing (some watermark), _ => some (.reading watermark)
  | .closing none, _ => some .rollingBack
  | .rollingBack, _ => some .recorded
  | .recorded, .value watermark => some (.reading watermark)
  | .recorded, _ => none
  | .reading _, _ => none

/-- The watermark a call has in hand. -/
def watermark : Stage → Option Int
  | .closing established => established
  | .reading watermark => some watermark
  | _ => none

end Stage

/-- What a pull is asked to answer with. -/
structure PullRequest where
  limit : Int64
  budgetBytes : Nat
  compressedLen : Bytes → Nat
  digest : HexString

/-- A pull under way, on its database session. -/
structure Pull (Session : Type u) where
  session : Session
  request : PullRequest
  stage : Stage := .beginning

/-- A client of one scope: the changes it has received, and where it goes on. -/
structure Walker (Session : Type u) where
  scope : ScopeId
  cursor : Cursor := Cursor.start
  received : List Change := []
  pull : Option (Pull Session) := none

variable {Session : Type u}

/-- A pull's next statement has been answered. -/
def Walker.resume [Hashing] (walker : Walker Session) (pull : Pull Session) : Reply → Walker Session
  | .rows table =>
    match pull.stage with
    | .reading watermark =>
      match changesAfterWatermark table walker.scope walker.cursor.get pull.request.limit watermark with
      | .ok page =>
        let batch := fillBatch pull.request.compressedLen walker.scope walker.cursor page.changes
          page.moreBeyond pull.request.budgetBytes pull.request.digest
        { walker with
          cursor := batch.nextCursor
          received := walker.received ++ batch.changes
          pull := none }
      | .error _ => { walker with pull := none }
    | _ => { walker with pull := none }
  | reply => { walker with pull := (pull.stage.next reply).map fun stage => { pull with stage := stage } }

/-- The database and the clients that pull from it. -/
structure World (Session : Type u) (Client : Type v) where
  db : Database Session := {}
  walkers : Client → Walker Session

inductive Event (Session : Type u) (Client : Type v) where
  | write (session : Session) (statement : Statement)
  | writeFails (session : Session) (statement : Statement)
  | skip (value : Int)
  | pull (client : Client) (session : Session) (request : PullRequest)
  | answer (client : Client)
  | fail (client : Client)
  | drop (client : Client)

/-- The statements of a writer: it takes `lock_for_write` in its transaction
before it inserts, and leaves the watermark to the readers. -/
def Statement.Writes [DecidableEq Session] (db : Database Session) (session : Session) :
    Statement → Prop
  | .begin | .lockShared | .commit | .rollback => True
  | .insertChange _ => session ∈ db.sessions.shared
  | _ => False

instance [DecidableEq Session] (db : Database Session) (session : Session) :
    DecidablePred (Statement.Writes db session)
  | .begin | .lockShared | .commit | .rollback => isTrue trivial
  | .insertChange _ => inferInstanceAs (Decidable (session ∈ db.sessions.shared))
  | .setLocalLockTimeout | .lockExclusive | .raiseWatermark | .readWatermark | .readChanges =>
    isFalse id

section Steps

variable {Client : Type v} [DecidableEq Session] [DecidableEq Client] [Hashing]

def World.with (world : World Session Client) (db : Database Session) (client : Client)
    (walker : Walker Session) : World Session Client where
  db := db
  walkers := Function.update world.walkers client walker

/-- One statement of one session, answered or failed, or a pull coming or going. -/
def World.next (world : World Session Client) : Event Session Client → Option (World Session Client)
  | .write session statement =>
    (world.db.execute session statement).map fun answer => { world with db := answer.2 }
  | .writeFails session statement => some { world with db := world.db.interrupt session statement }
  | .skip value => some { world with db := world.db.skip value }
  | .pull client session request =>
    let walker := world.walkers client
    if walker.pull.isSome then none
    else some (world.with world.db client { walker with pull := some { session, request } })
  | .answer client =>
    let walker := world.walkers client
    walker.pull.bind fun pull =>
      (world.db.execute pull.session pull.stage.statement).map fun answer =>
        world.with answer.2 client (walker.resume pull answer.1)
  | .fail client =>
    let walker := world.walkers client
    walker.pull.map fun pull =>
      world.with (world.db.interrupt pull.session pull.stage.statement) client
        (walker.resume pull .error)
  | .drop client =>
    some (world.with world.db client { world.walkers client with pull := none })

/-- Writers and pulls have sessions of their own, and writers keep to theirs. -/
def World.Enabled (writers : Set Session) (world : World Session Client) :
    Event Session Client → Prop
  | .write session statement => session ∈ writers ∧ statement.Writes world.db session
  | .writeFails session _ => session ∈ writers
  | .pull _ session _ => session ∉ writers
  | _ => True

instance {writers : Set Session} [DecidablePred (· ∈ writers)] (world : World Session Client) :
    DecidablePred (world.Enabled writers)
  | .write session statement =>
    inferInstanceAs (Decidable (session ∈ writers ∧ statement.Writes world.db session))
  | .writeFails session _ => inferInstanceAs (Decidable (session ∈ writers))
  | .pull _ session _ => inferInstanceAs (Decidable (session ∉ writers))
  | .skip _ | .answer _ | .fail _ | .drop _ => isTrue trivial

def World.Step (writers : Set Session) (before : World Session Client)
    (event : Event Session Client) (after : World Session Client) : Prop :=
  before.Enabled writers event ∧ before.next event = some after

end Steps

/-! ### One reply -/

/-- A watermark in hand was in hand before, or is what the reply reports. -/
theorem Stage.next_watermark {stage after : Stage} {reply : Reply} {watermark : Int}
    (goes : stage.next reply = some after) (held : after.watermark = some watermark) :
    stage.watermark = some watermark ∨
      (stage.statement = .raiseWatermark ∨ stage.statement = .readWatermark) ∧
        reply = .value watermark := by
  cases stage with
  | closing established =>
    cases established <;> cases reply <;> cases goes <;> exact .inl held
  | raising =>
    cases reply <;> cases goes <;> cases held
    exact .inr ⟨.inl rfl, rfl⟩
  | recorded =>
    cases reply <;> cases goes
    cases held
    exact .inr ⟨.inr rfl, rfl⟩
  | beginning | settingTimeout | locking | rollingBack | reading _ =>
    cases reply <;> cases goes <;> cases held

section Kept

variable [DecidableEq Session]

theorem Database.Sound.sequenced {writers : Set Session} {db : Database Session}
    (sound : db.Sound writers) : SequencedTable db.committed where
  distinct := by
    rw [Database.committed, List.map_map]
    exact List.pairwise_map.mpr ((sound.ordered.imp fun below => below.ne).filter _)
  positive := by
    intro change member
    obtain ⟨row, inside, _, rfl⟩ := Database.mem_committed.mp member
    exact (sound.within row inside).1

/-- A client has received exactly what its scope's log holds up to its cursor,
which is safe, as are the watermarks its pull has in hand. -/
structure Walker.Keeps (writers : Set Session) (db : Database Session) (walker : Walker Session) :
    Prop where
  received : walker.received.map Change.toRow =
    scopeLog db.committed walker.scope walker.cursor.get
  safe : db.Safe walker.cursor.get
  reads : ∀ pull, walker.pull = some pull → pull.session ∉ writers
  returned : ∀ pull watermark, walker.pull = some pull → pull.stage.watermark = some watermark →
    db.Safe watermark

variable {writers : Set Session} {before after : Database Session} {walker : Walker Session}
  {pull : Pull Session}

theorem Walker.Keeps.grow (keeps : walker.Keeps writers before) (sound : before.Sound writers)
    (sound' : after.Sound writers) (grows : before.Extends after) : walker.Keeps writers after where
  received := keeps.received.trans (scopeLog_congr sound.sequenced sound'.sequenced walker.scope
    fun row below => (grows.settled _ keeps.safe ⟨walker.scope.bytes, row⟩ below).symm)
  safe := grows.safe _ keeps.safe
  reads := keeps.reads
  returned := fun pull watermark active held =>
    grows.safe _ (keeps.returned pull watermark active held)

/-- A page read up to a safe watermark carries on exactly from the cursor. -/
theorem Batch.Begins.continues {batch : Batch} {scope : ScopeId} {cursor : Cursor} {watermark : Int}
    (sound : after.Sound writers) (safe : after.Safe cursor.get) (limit : after.Safe watermark)
    (begins : batch.Begins cursor (selectChanges after.committed scope cursor.get watermark) rest) :
    scopeLog after.committed scope cursor.get ++ batch.changes.map Change.toRow =
        scopeLog after.committed scope batch.nextCursor.get ∧
      after.Safe batch.nextCursor.get := by
  have sequenced := sound.sequenced
  rw [selectChanges_eq sequenced] at begins
  have above : ∀ row ∈ (scopeLog after.committed scope watermark).filter
      (fun row => (cursor.get : Int) < row.seq), (cursor.get : Int) < row.seq :=
    fun row member => of_decide_eq_true (List.mem_filter.mp member).2
  have ascending := (sequenced.ascending scope watermark).filter fun row => (cursor.get : Int) < row.seq
  have forward := begins.forward above
  -- the batch ends at a row it read, or where it began
  have ended : batch.nextCursor.get = cursor.get ∨ (batch.nextCursor.get : Int) ≤ watermark := by
    rw [begins.nextCursor]
    rcases KeyedLog.reached_eq_low_or_mem (fun row : ChangeRow => row.seq.toNat) cursor.get
      (batch.changes.map Change.toRow) with ⟨_, same⟩ | ⟨row, member, same⟩
    · exact .inl same
    · obtain ⟨visible, _⟩ := List.mem_filter.mp (begins.split ▸ List.mem_append_left _ member)
      obtain ⟨inside, below⟩ := mem_scopeLog.mp visible
      have positive := sequenced.positive _ inside
      simp only at positive
      right
      omega
  constructor
  · rw [← scopeLog_append sequenced scope (Int.ofNat_le.mpr forward)]
    refine congrArg _ (eq_of_ascending ?_ ((sequenced.ascending scope _).filter _) fun row => ?_)
    · exact ascending.sublist (begins.split ▸ List.sublist_append_left _ _)
    · rw [begins.holds ascending above, List.mem_filter, List.mem_filter, mem_scopeLog, mem_scopeLog]
      simp only [decide_eq_true_eq]
      constructor
      · rintro ⟨⟨⟨inside, _⟩, higher⟩, below⟩
        exact ⟨⟨inside, by omega⟩, higher⟩
      · rintro ⟨⟨inside, below⟩, higher⟩
        exact ⟨⟨⟨inside, by omega⟩, higher⟩, by omega⟩
  · rcases ended with same | below
    · rw [same]
      exact safe
    · exact ⟨below.trans limit.handedOut, fun row member pending =>
        below.trans_lt (limit.settled row member pending)⟩

variable [Hashing]

/-- What a client keeps over an answer to its pull. -/
theorem Walker.Keeps.resume {reply : Reply} (keeps : walker.Keeps writers before)
    (active : walker.pull = some pull) (sound : before.Sound writers)
    (ran : Database.Keeps writers pull.stage.statement before reply after)
    (rows : ∀ table, reply = .rows table → table = after.committed) :
    (walker.resume pull reply).Keeps writers after := by
  have grown := keeps.grow sound ran.sound ran.grows
  have ended : Walker.Keeps writers after { walker with pull := none } :=
    ⟨grown.received, grown.safe, (fun _ impossible => nomatch impossible),
      fun _ _ impossible => nomatch impossible⟩
  -- the call goes on: only the reply can bring a new watermark
  have goes : Walker.Keeps writers after
      { walker with pull := (pull.stage.next reply).map fun stage => { pull with stage := stage } } := by
    refine ⟨grown.received, grown.safe, fun later same => ?_, fun later watermark same held => ?_⟩
    · obtain ⟨stage, _, rfl⟩ := Option.map_eq_some_iff.mp same
      exact keeps.reads pull active
    · obtain ⟨stage, goes, rfl⟩ := Option.map_eq_some_iff.mp same
      rcases Stage.next_watermark goes held with before | ⟨reports, value⟩
      · exact grown.returned pull watermark active before
      · exact ran.reported watermark reports value
  cases reply with
  | done => exact goes
  | value value => exact goes
  | error => exact goes
  | rows table =>
    cases rows table rfl
    simp only [Walker.resume]
    split
    · rename_i watermark reading
      split
      · rename_i page read
        obtain ⟨rest, cut⟩ := fillBatch_cut pull.request.compressedLen walker.scope walker.cursor
          page.changes page.moreBeyond pull.request.budgetBytes pull.request.digest
        unfold changesAfterWatermark at read
        split at read
        · cases read
        · obtain ⟨beyond, reads⟩ := readPage_ok read
          have held : pull.stage.watermark = some watermark := by rw [reading]; rfl
          obtain ⟨continued, safe⟩ := (cut.begins reads).continues ran.sound grown.safe
            (grown.returned pull watermark active held)
          refine ⟨?_, safe, (fun _ impossible => nomatch impossible),
            fun _ _ impossible => nomatch impossible⟩
          rw [List.map_append, grown.received]
          exact continued
      · exact ended
    · exact ended

end Kept

/-! ### What every step keeps -/

section World

variable {Client : Type v} [DecidableEq Session] [DecidableEq Client] {writers : Set Session}

structure World.Keeps (writers : Set Session) (world : World Session Client) : Prop where
  sound : world.db.Sound writers
  walkers : ∀ client, (world.walkers client).Keeps writers world.db

/-- Safe positions stay safe, and what is committed below them stays. -/
def World.Grows (before after : World Session Client) : Prop := before.db.Extends after.db

/-- The watermark is raised while its session holds the exclusive lock: no other
call has ended the transaction that took it. -/
def World.RaisesLocked (world : World Session Client) : Event Session Client → Prop
  | .answer client => ∀ pull ∈ (world.walkers client).pull, pull.stage = .raising →
      world.db.sessions.tx pull.session = .failed ∨ pull.session ∈ world.db.sessions.exclusive
  | _ => True

instance (world : World Session Client) : DecidablePred world.RaisesLocked
  | .answer client => inferInstanceAs (Decidable (∀ pull ∈ (world.walkers client).pull,
      pull.stage = .raising → world.db.sessions.tx pull.session = .failed ∨
        pull.session ∈ world.db.sessions.exclusive))
  | .write .. | .writeFails .. | .skip _ | .pull .. | .fail _ | .drop _ => isTrue trivial

variable {before after : World Session Client} {db : Database Session}

omit [DecidableEq Session] [DecidableEq Client] in
theorem World.Grows.refl (world : World Session Client) : world.Grows world := Database.Extends.refl

omit [DecidableEq Session] [DecidableEq Client] in
theorem World.Grows.trans (first second third : World Session Client) (earlier : first.Grows second)
    (later : second.Grows third) : first.Grows third :=
  Database.Extends.trans earlier later

omit [DecidableEq Client] in
theorem Statement.Writes.permits {session : Session} {statement : Statement}
    (writes : statement.Writes db session) (writer : session ∈ writers) :
    db.Permits writers session statement := by
  cases statement <;> first | exact writer | exact writes | exact trivial | exact writes.elim

/-- A new database state and one client's new state are enough for all. -/
private theorem World.Keeps.with (keeps : before.Keeps writers) (sound : db.Sound writers)
    (grows : before.db.Extends db) {client : Client} {walker : Walker Session}
    (kept : walker.Keeps writers db) : (before.with db client walker).Keeps writers where
  sound := sound
  walkers := by
    intro other
    by_cases same : other = client
    · subst same
      simpa [World.with] using kept
    · simpa [World.with, same] using (keeps.walkers other).grow keeps.sound sound grows

omit [DecidableEq Client] in
private theorem World.Keeps.grow (keeps : before.Keeps writers) (sound : db.Sound writers)
    (grows : before.db.Extends db) : World.Keeps writers { before with db := db } :=
  ⟨sound, fun client => (keeps.walkers client).grow keeps.sound sound grows⟩

variable [Hashing]

theorem World.Step.keeps {event : Event Session Client} (step : World.Step writers before event after)
    (locked : before.RaisesLocked event) (keeps : before.Keeps writers) :
    after.Keeps writers ∧ before.Grows after := by
  obtain ⟨enabled, goes⟩ := step
  cases event with
  | write session statement =>
    obtain ⟨answer, ran, rfl⟩ := Option.map_eq_some_iff.mp goes
    have kept := Database.execute_keeps keeps.sound (enabled.2.permits enabled.1) ran
    exact ⟨keeps.grow kept.sound kept.grows, kept.grows⟩
  | writeFails session statement =>
    cases goes
    have kept : Database.Keeps writers statement before.db .error
        (before.db.interrupt session statement) :=
      Database.interrupt_keeps keeps.sound statement
    exact ⟨keeps.grow kept.sound kept.grows, kept.grows⟩
  | skip value =>
    cases goes
    obtain ⟨sound, grows⟩ := Database.skip_keeps keeps.sound value
    exact ⟨keeps.grow sound grows, grows⟩
  | pull client session request =>
    simp only [World.next] at goes
    split at goes <;> cases goes
    have kept := keeps.walkers client
    refine ⟨keeps.with keeps.sound .refl ⟨kept.received, kept.safe, fun pull same => ?_,
      fun pull watermark same held => ?_⟩, World.Grows.refl _⟩
    · cases same
      exact enabled
    · cases same
      cases held
  | answer client =>
    obtain ⟨pull, active, moves⟩ := Option.bind_eq_some_iff.mp goes
    obtain ⟨⟨reply, db⟩, ran, rfl⟩ := Option.map_eq_some_iff.mp moves
    have reads := (keeps.walkers client).reads pull active
    have permitted : before.db.Permits writers pull.session pull.stage.statement := by
      cases stage : pull.stage <;> first | exact trivial | exact reads | exact locked pull active stage
    have kept := Database.execute_keeps keeps.sound permitted ran
    refine ⟨keeps.with kept.sound kept.grows ((keeps.walkers client).resume active keeps.sound kept
      fun table same => ?_), kept.grows⟩
    subst same
    obtain ⟨visible, rfl⟩ := Database.execute_rows ran
    rw [visible, keeps.sound.visible reads]
  | fail client =>
    obtain ⟨pull, active, rfl⟩ := Option.map_eq_some_iff.mp goes
    have kept : Database.Keeps writers pull.stage.statement before.db .error
        (before.db.interrupt pull.session pull.stage.statement) :=
      Database.interrupt_keeps keeps.sound pull.stage.statement
    exact ⟨keeps.with kept.sound kept.grows ((keeps.walkers client).resume active keeps.sound kept
      fun _ same => nomatch same), kept.grows⟩
  | drop client =>
    cases goes
    have kept := keeps.walkers client
    exact ⟨keeps.with keeps.sound .refl ⟨kept.received, kept.safe, (fun _ impossible => nomatch impossible),
      fun _ _ impossible => nomatch impossible⟩, World.Grows.refl _⟩

/-- The server as it starts: nothing written, and no client has pulled. -/
def World.start (scopes : Client → ScopeId) : World Session Client where
  walkers := fun client => { scope := scopes client }

omit [DecidableEq Client] [Hashing] in
theorem World.start_keeps (writers : Set Session) (scopes : Client → ScopeId) :
    (World.start scopes : World Session Client).Keeps writers := by
  have safe : ({} : Database Session).Safe 0 := ⟨le_rfl, fun row member => nomatch member⟩
  have sound : ({} : Database Session).Sound writers := by
    constructor
    case exclusion => exact Sessions.Exclusion.empty
    case ordered => exact List.Pairwise.nil
    case counted => exact le_rfl
    case recorded => exact safe
    all_goals simp
  exact ⟨sound, fun client => ⟨rfl, safe, (fun _ impossible => nomatch impossible),
    fun _ _ impossible => nomatch impossible⟩⟩

end World

end CredSync
